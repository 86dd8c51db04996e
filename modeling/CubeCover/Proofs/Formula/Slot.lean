import CubeCover.Proofs.Formula.Grammar

/-! Where the tokens of a formula may go on. Before each token stands a slot: an operand has to come
there, or an operator may, inside some open parentheses. A list of tokens is a formula just if it leads
from the first slot to an operator outside all parentheses, and a formula begins with it just if it
leads to any slot. A reader that refuses tokens does so at a slot that has no room for the next one. -/
namespace CubeCover

/-- Tokens that write a formula. -/
def IsSentence (tokens : List Token) : Prop := ∃ f, Derives (.chain .or) tokens f

/-- Tokens that some sentence begins with, perhaps a sentence themselves. -/
def BeginsSentence (tokens : List Token) : Prop := ∃ rest, IsSentence (tokens ++ rest)

namespace TokenKind

/-- The kinds of tokens that an operand begins with. -/
def startsOperand : TokenKind → Bool
  | negation | leftParen | verum | falsum | word | symbol => true
  | conjunction | disjunction | rightParen => false

/-- The kinds of tokens that stand between two operands. -/
def isOperator : TokenKind → Bool
  | conjunction | disjunction => true
  | _ => false

end TokenKind

/-- How many more parentheses are opened than closed. -/
def openParens (tokens : List Token) : Int :=
  tokens.countP (·.kind == .leftParen) - tokens.countP (·.kind == .rightParen)

/-- A place between two tokens of a sentence, with the number of open parentheses around it. -/
inductive Slot
  /-- An operand has to come. -/
  | operand (depth : Nat)
  /-- An operand has just ended. -/
  | operator (depth : Nat)

namespace Slot

def depth : Slot → Nat
  | operand depth => depth
  | operator depth => depth

/-- The slot after a token of some kind, if the token fits in. -/
def next? : Slot → TokenKind → Option Slot
  | operand depth, .negation => some (operand depth)
  | operand depth, .leftParen => some (operand (depth + 1))
  | operand depth, kind => if kind.startsOperand then some (operator depth) else none
  | operator (depth + 1), .rightParen => some (operator depth)
  | operator depth, kind => if kind.isOperator then some (operand depth) else none

/-- The slot after some tokens, if they all fit in. -/
def after? (s : Slot) : List Token → Option Slot
  | [] => some s
  | token :: rest => (s.next? token.kind).bind (after? · rest)

theorem after?_cons (s : Slot) (token : Token) (rest : List Token) :
    s.after? (token :: rest) = (s.next? token.kind).bind (·.after? rest) := rfl

theorem after?_append (s : Slot) (tokens rest : List Token) :
    s.after? (tokens ++ rest) = (s.after? tokens).bind (·.after? rest) := by
  induction tokens generalizing s with
  | nil => rfl
  | cons token tokens ih =>
    rw [List.cons_append, after?_cons, after?_cons]
    cases s.next? token.kind with
    | none => rfl
    | some next => exact ih next

theorem after?_concat {s slot : Slot} {tokens : List Token} (h : s.after? tokens = some slot)
    (token : Token) : s.after? (tokens ++ [token]) = slot.next? token.kind := by
  rw [after?_append, h, Option.bind_some, after?_cons]
  cases slot.next? token.kind <;> rfl

theorem next?_operand_isSome (depth : Nat) (kind : TokenKind) :
    ((operand depth).next? kind).isSome = kind.startsOperand := by
  cases kind <;> rfl

theorem next?_operator_isSome (depth : Nat) (kind : TokenKind) :
    ((operator depth).next? kind).isSome =
      (kind.isOperator || (kind == .rightParen && decide (0 < depth))) := by
  cases depth <;> cases kind <;> rfl

theorem next?_operator_token (depth : Nat) (op : Connective) :
    (operator depth).next? op.token = some (operand depth) := by
  cases depth <;> cases op <;> rfl

/-- The tokens of a formula fill the slot of an operand. -/
theorem after?_of_derives {level : Level} {tokens : List Token} {f : Formula}
    (h : Derives level tokens f) (depth : Nat) :
    (operand depth).after? tokens = some (operator depth) := by
  induction h generalizing depth with
  | link h ih => exact ih depth
  | @join op left right f g joint hleft hjoint hright ihleft ihright =>
    rw [after?_append, ihleft depth, Option.bind_some, after?_cons, hjoint,
      next?_operator_token, Option.bind_some, ihright depth]
  | negated sign hsign h ih =>
    rw [after?_cons, hsign]
    exact ih depth
  | grouped opening closing hopening h hclosing ih =>
    have hclose : (operator (depth + 1)).after? [closing] = some (operator depth) := by
      rw [after?_cons, hclosing]
      rfl
    rw [after?_cons, hopening, next?, Option.bind_some, after?_append, ih (depth + 1),
      Option.bind_some, hclose]
  | verum token h =>
    rw [after?_cons, h]
    rfl
  | falsum token h =>
    rw [after?_cons, h]
    rfl
  | named token h =>
    rw [after?_cons]
    rcases h with h | h <;> rw [h] <;> rfl

/-- Every token that fits in keeps the account of the parentheses. -/
theorem depth_of_next? {s slot : Slot} {token : Token} (h : s.next? token.kind = some slot) :
    (slot.depth : Int) = s.depth + openParens [token] := by
  have hparens : openParens [token] =
      ((if token.kind = .leftParen then 1 else 0 : Nat) : Int) -
        (if token.kind = .rightParen then 1 else 0 : Nat) := by
    simp [openParens]
  rw [hparens]
  revert h
  generalize token.kind = kind
  cases s with
  | operand depth =>
    cases kind <;> rintro ⟨⟩ <;> simp [Slot.depth]
  | operator depth =>
    cases depth <;> cases kind <;> rintro ⟨⟩ <;>
      simp only [Slot.depth, reduceCtorEq, if_true, if_false] <;> omega

theorem openParens_cons (token : Token) (tokens : List Token) :
    openParens (token :: tokens) = openParens [token] + openParens tokens := by
  simp only [openParens, List.countP_cons, List.countP_nil]
  omega

theorem depth_of_after? {s slot : Slot} {tokens : List Token} (h : s.after? tokens = some slot) :
    (slot.depth : Int) = s.depth + openParens tokens := by
  induction tokens generalizing s with
  | nil =>
    obtain rfl := Option.some.inj h
    simp [openParens]
  | cons token tokens ih =>
    rw [after?_cons, Option.bind_eq_some_iff] at h
    obtain ⟨next, hnext, hafter⟩ := h
    rw [openParens_cons, ih hafter, depth_of_next? hnext, Int.add_assoc]

/-- What a reader says of the next token, or of the end of the tokens, where it does not fit in. -/
inductive Refuses : Slot → Option Token → ParseError → Prop
  | operand (depth : Nat) (found? : Option Token)
      (h : ∀ token ∈ found?, (operand depth).next? token.kind = none) :
      Refuses (operand depth) found? (.missingOperand (found?.map Token.text))
  | inside (depth : Nat) (found? : Option Token)
      (h : ∀ token ∈ found?, (operator (depth + 1)).next? token.kind = none) :
      Refuses (operator (depth + 1)) found? (.unclosed (found?.map Token.text))
  | outside (token : Token) (h : (operator 0).next? token.kind = none) :
      Refuses (operator 0) (some token) (.trailing token.text)

theorem Refuses.next?_eq_none {s : Slot} {found? : Option Token} {e : ParseError}
    (h : s.Refuses found? e) : ∀ token ∈ found?, s.next? token.kind = none := by
  cases h with
  | operand depth _ h => exact h
  | inside depth _ h => exact h
  | outside token h => simpa using h

/-- Outside all parentheses the end of the tokens is not refused. -/
theorem Refuses.ne_operator_zero {s : Slot} {e : ParseError} (h : s.Refuses none e) :
    s ≠ operator 0 := by
  rintro rfl
  cases h

theorem Refuses.found? {s : Slot} {found? : Option Token} {e : ParseError}
    (h : s.Refuses found? e) : e.found? = found?.map Token.text := by
  cases h <;> rfl

end Slot

namespace Level

theorem prolongs_chain (op : Connective) (kind : TokenKind) :
    (Level.chain op).prolongs kind = (op.link.prolongs kind || kind == op.token) := by
  cases op <;> cases kind <;> rfl

theorem prolongs_disjunction (kind : TokenKind) :
    (Level.chain .or).prolongs kind = kind.isOperator := by
  cases kind <;> rfl

/-- A reader goes on for as long as it can. -/
theorem stops_of_outcome (level : Level) (tokens rest : List Token) (f : Formula)
    (h : level.outcome tokens = .ok (f, rest)) : level.Stops rest := by
  induction level, tokens using read_induction generalizing rest f with
  | factor tokens ih => exact fun _ _ => rfl
  | chain op tokens hlink ih =>
    rw [outcome_chain] at h
    split at h
    · exact absurd h (by simp)
    · obtain ⟨rfl, rfl⟩ := Prod.mk.inj (Except.ok.inj h)
      exact stops_nil _
    · rename_i left joint rest' hread
      have hless := length_outcome _ _ _ _ hread
      rw [List.length_cons] at hless
      split at h
      · split at h
        · exact absurd h (by simp)
        · rename_i right rest'' hread'
          obtain ⟨rfl, rfl⟩ := Prod.mk.inj (Except.ok.inj h)
          exact ih rest' (by omega) rest'' right hread'
      · -- the joint neither joins two links nor prolongs the link before it
        rename_i hjoint
        obtain ⟨rfl, rfl⟩ := Prod.mk.inj (Except.ok.inj h)
        have hstops := hlink (joint :: rest') left hread
        rw [stops_cons] at hstops ⊢
        rw [prolongs_chain, hstops, Bool.false_or, beq_eq_false_iff_ne]
        exact hjoint

/-- The tokens up to some slot fit in, and what comes next is refused there. -/
def RefusedAt (start : Slot) (tokens : List Token) (e : ParseError) : Prop :=
  ∃ used after slot, tokens = used ++ after ∧ start.after? used = some slot ∧
    slot.Refuses after.head? e

theorem RefusedAt.append {start s : Slot} {tokens rest : List Token} {e : ParseError}
    (h : RefusedAt s rest e) (hstart : start.after? tokens = some s) :
    RefusedAt start (tokens ++ rest) e := by
  obtain ⟨used, after, slot, rfl, hslot, hrefuses⟩ := h
  refine ⟨tokens ++ used, after, slot, (List.append_assoc _ _ _).symm, ?_, hrefuses⟩
  rw [Slot.after?_append, hstart, Option.bind_some, hslot]

theorem refusedAt_of_factor_error (token : Token) (tokens : List Token) (e : ParseError)
    (depth : Nat)
    (ih : ∀ (level : Level) (depth : Nat), level.outcome tokens = .error e →
      RefusedAt (.operand depth) tokens e)
    (h : Level.factor.outcome (token :: tokens) = .error e) :
    RefusedAt (.operand depth) (token :: tokens) e := by
  rw [outcome_factor_cons] at h
  cases hkind : token.kind with
  | negation =>
    rw [hkind] at h
    dsimp only at h
    split at h
    · rename_i e' hread
      obtain rfl := Except.error.inj h
      have hsign : (Slot.operand depth).after? [token] = some (.operand depth) := by
        rw [Slot.after?_cons, hkind]
        rfl
      exact (ih .factor depth hread).append hsign
    · exact absurd h (by simp)
  | leftParen =>
    rw [hkind] at h
    dsimp only at h
    have hopening : (Slot.operand depth).after? [token] = some (.operand (depth + 1)) := by
      rw [Slot.after?_cons, hkind]
      rfl
    split at h
    · rename_i e' hread
      obtain rfl := Except.error.inj h
      exact (ih (.chain .or) (depth + 1) hread).append hopening
    · -- the formula inside ends where the tokens end
      rename_i inner hread
      obtain rfl := Except.error.inj h
      obtain ⟨used, rfl, hused⟩ := derives_of_outcome _ _ _ _ hread
      have hinside : RefusedAt (.operand (depth + 1)) (used ++ []) (.unclosed none) :=
        ⟨used, [], _, rfl, Slot.after?_of_derives hused _, .inside depth none (by simp)⟩
      exact hinside.append hopening
    · rename_i inner close rest' hread
      split at h
      · exact absurd h (by simp)
      · -- what follows the formula inside neither prolongs nor closes it
        rename_i hclose
        obtain rfl := Except.error.inj h
        have hstops := stops_of_outcome _ _ _ _ hread
        rw [stops_cons] at hstops
        obtain ⟨used, rfl, hused⟩ := derives_of_outcome _ _ _ _ hread
        have hnext : (Slot.operator (depth + 1)).next? close.kind = none := by
          rw [← Option.not_isSome_iff_eq_none, Slot.next?_operator_isSome, ← prolongs_disjunction,
            hstops]
          simp [hclose]
        have hinside : RefusedAt (.operand (depth + 1)) (used ++ close :: rest')
            (.unclosed (some close.text)) :=
          ⟨used, close :: rest', _, rfl, Slot.after?_of_derives hused _,
            .inside depth (some close) (by simpa using hnext)⟩
        exact hinside.append hopening
  | conjunction | disjunction | rightParen =>
    rw [hkind] at h
    obtain rfl := Except.error.inj h
    refine ⟨[], token :: tokens, _, rfl, rfl, .operand depth (some token) ?_⟩
    intro found hfound
    obtain rfl := Option.some.inj hfound
    rw [hkind]
    rfl
  | verum | falsum | word | symbol =>
    rw [hkind] at h
    exact absurd h (by simp)

/-- A reader that refuses tokens does so at a slot, inside the parentheses it is in or at an
operand. -/
theorem refusedAt_of_error (level : Level) (tokens : List Token) (e : ParseError) (depth : Nat)
    (h : level.outcome tokens = .error e) : RefusedAt (.operand depth) tokens e := by
  induction level, tokens using read_induction generalizing e depth with
  | factor tokens ih =>
    cases tokens with
    | nil =>
      rw [outcome_factor_nil] at h
      obtain rfl := Except.error.inj h
      exact ⟨[], [], _, rfl, rfl, .operand depth none (by simp)⟩
    | cons token tokens =>
      exact refusedAt_of_factor_error token tokens e depth
        (fun level depth => ih level tokens (Nat.lt_succ_self _) e depth) h
  | chain op tokens hlink ih =>
    rw [outcome_chain] at h
    split at h
    · rename_i e' hread
      obtain rfl := Except.error.inj h
      exact hlink _ depth hread
    · exact absurd h (by simp)
    · rename_i left joint rest hread
      have hless := length_outcome _ _ _ _ hread
      rw [List.length_cons] at hless
      obtain ⟨used, rfl, hused⟩ := derives_of_outcome _ _ _ _ hread
      split at h
      · rename_i hjoint
        split at h
        · -- the links before the joint fill a slot, and the joint makes another one
          rename_i e' hread'
          obtain rfl := Except.error.inj h
          have hjoined : (Slot.operand depth).after? (used ++ [joint]) = some (.operand depth) := by
            rw [Slot.after?_concat (Slot.after?_of_derives hused depth), hjoint,
              Slot.next?_operator_token]
          have hrest := (ih rest (by omega) _ depth hread').append hjoined
          rwa [List.append_assoc] at hrest
        · exact absurd h (by simp)
      · exact absurd h (by simp)

end Level

end CubeCover
