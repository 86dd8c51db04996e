import CubeCover.Proofs.Formula.Lexeme

/-! The tokens of a text by ordered rules. Before each token the ignored characters are skipped, one by one. Then
the first rule that takes the next character takes as many characters as it can, and they are a token, or nothing
if the rule only separates tokens. The rules refuse no text, and the tokens are those of the scanner. -/
namespace CubeCover

namespace Token

/-- The reserved words and their kinds. -/
def keywords : List (String × TokenKind) :=
  [("not", .negation), ("and", .conjunction), ("or", .disjunction), ("true", .verum),
    ("false", .falsum)]

theorem wordKind_eq_lookup (text : String) :
    wordKind text = (keywords.lookup text).getD .word := by
  unfold wordKind
  split_ifs with hnot hand hor htrue hfalse
  · rw [hnot]; rfl
  · rw [hand]; rfl
  · rw [hor]; rfl
  · rw [htrue]; rfl
  · rw [hfalse]; rfl
  · have hnone : keywords.lookup text = none := by
      rw [List.lookup_eq_none_iff]
      simp [keywords, hnot, hand, hor, htrue, hfalse]
    rw [hnone]
    rfl

/-- What to do at a character: which characters are taken, one of them or all that follow each other, what kind
of token they are, if any, and which words have a kind of their own. -/
structure ScanRule where
  accepts : Char → Bool
  repeats : Bool
  kind? : Option TokenKind
  reserved : List (String × TokenKind)

namespace ScanRule

/-- The characters that are taken after the first one. -/
def more (rule : ScanRule) (rest : List Char) : List Char :=
  if rule.repeats then rest.takeWhile rule.accepts else []

/-- The characters that are left. -/
def left (rule : ScanRule) (rest : List Char) : List Char :=
  if rule.repeats then rest.dropWhile rule.accepts else rest

/-- The token of some characters at an offset. -/
def token? (rule : ScanRule) (start : Nat) (taken : List Char) : Option Token :=
  let text := String.ofList taken
  rule.kind?.map fun kind =>
    ⟨(rule.reserved.lookup text).getD kind, text, start, start + taken.length⟩

theorem length_left_le (rule : ScanRule) (rest : List Char) :
    (rule.left rest).length ≤ rest.length := by
  unfold left
  split
  · exact length_dropWhile_le rule.accepts rest
  · exact Nat.le_refl _

end ScanRule

/-- Characters that are skipped before any rule is asked. -/
def ignored : List Char := [' ', '\t', '\r', '\n']

/-- The rules for the texts of formulas: blanks, the two parentheses, words, and all that is no blank. -/
def rules : List ScanRule :=
  [⟨Text.isBlank, true, none, []⟩,
    ⟨(· == '('), false, some .leftParen, []⟩,
    ⟨(· == ')'), false, some .rightParen, []⟩,
    ⟨Text.isWord, true, some .word, keywords⟩,
    ⟨fun c => !Text.isBlank c, false, some .symbol, []⟩]

/-- The tokens that the rules make of a text, or the place of a character that no rule takes. -/
def byRules (start : Nat) : List Char → Except Nat (List Token)
  | [] => .ok []
  | c :: rest =>
    if ignored.contains c then byRules (start + 1) rest
    else
      match rules.find? (·.accepts c) with
      | none => .error start
      | some rule =>
        let taken := c :: rule.more rest
        match byRules (start + taken.length) (rule.left rest) with
        | .error place => .error place
        | .ok tokens => .ok ((rule.token? start taken).toList ++ tokens)
termination_by cs => cs.length
decreasing_by
  · exact Nat.lt_succ_self _
  · exact Nat.lt_succ_of_le (rule.length_left_le rest)

/-- Blanks at the front of a text only shift its tokens. -/
theorem scanFrom_dropWhile_isBlank (start : Nat) (cs : List Char) :
    scanFrom (start + (cs.takeWhile Text.isBlank).length) (cs.dropWhile Text.isBlank) =
      scanFrom start cs := by
  induction cs generalizing start with
  | nil => rfl
  | cons c cs ih =>
    cases hc : Text.isBlank c with
    | true =>
      rw [List.takeWhile_cons_of_pos hc, List.dropWhile_cons_of_pos hc, scanFrom_blank _ _ _ hc,
        ← ih, List.length_cons, Nat.add_right_comm, Nat.add_assoc]
    | false =>
      rw [List.takeWhile_cons_of_neg (by simp [hc]), List.dropWhile_cons_of_neg (by simp [hc])]
      rfl

theorem isBlank_of_ignored {c : Char} (h : ignored.contains c = true) : Text.isBlank c = true := by
  have hblank : ignored.all Text.isBlank = true := by decide
  exact List.all_eq_true.mp hblank c (List.contains_iff_mem.mp h)

theorem byRules_of_rule {start : Nat} {c : Char} {rest : List Char} (rule : ScanRule)
    {tokens : List Token} (hc : ¬ ignored.contains c = true)
    (hrule : rules.find? (·.accepts c) = some rule)
    (hrest : byRules (start + (rule.more rest).length + 1) (rule.left rest) = .ok tokens) :
    byRules start (c :: rest) =
      .ok ((rule.token? start (c :: rule.more rest)).toList ++ tokens) := by
  rw [byRules, if_neg hc, hrule]
  simp only [List.length_cons, ← Nat.add_assoc, hrest]

/-- The first rule for a word character makes words. -/
theorem find?_rules_of_isWord {c : Char} (hblank : Text.isBlank c = false)
    (hc : Text.isWord c = true) :
    rules.find? (·.accepts c) = some ⟨Text.isWord, true, some .word, keywords⟩ := by
  have hopen : c ≠ '(' := Text.ne_of_isWord hc (by decide)
  have hclose : c ≠ ')' := Text.ne_of_isWord hc (by decide)
  simp [rules, hblank, hc, hopen, hclose]

/-- Of the other characters each is a token of its own. -/
theorem exists_rule_of_symbol {c : Char} (hblank : Text.isBlank c = false)
    (hc : Text.isWord c = false) :
    ∃ rule, rules.find? (·.accepts c) = some rule ∧ rule.repeats = false ∧
      ∀ start, rule.token? start [c] = some (ofSymbol start c) := by
  by_cases hopen : c = '('
  · subst hopen
    refine ⟨⟨(· == '('), false, some .leftParen, []⟩, ?_, rfl, ?_⟩
    · simp [rules, hblank]
    · intro start
      rfl
  · by_cases hclose : c = ')'
    · subst hclose
      refine ⟨⟨(· == ')'), false, some .rightParen, []⟩, ?_, rfl, ?_⟩
      · simp [rules, hblank]
      · intro start
        rfl
    · refine ⟨⟨fun c => !Text.isBlank c, false, some .symbol, []⟩, ?_, rfl, ?_⟩
      · simp [rules, hblank, hc, hopen, hclose]
      · intro start
        simp [ScanRule.token?, ofSymbol, hopen, hclose]

/-- The rules make the tokens of the scanner, whose three cases are the blanks, the words and the rest. -/
theorem byRules_eq_scanFrom (start : Nat) (cs : List Char) :
    byRules start cs = .ok (scanFrom start cs) := by
  induction hn : cs.length using Nat.strongRecOn generalizing start cs with
  | ind n ih =>
    cases cs with
    | nil => rw [byRules, scanFrom_nil]
    | cons c rest =>
      have hshorter (start' : Nat) (left : List Char) (hleft : left.length ≤ rest.length) :
          byRules start' left = .ok (scanFrom start' left) := by
        have hless : left.length < n := by
          rw [← hn, List.length_cons]
          omega
        exact ih left.length hless start' left rfl
      by_cases hignored : ignored.contains c = true
      · rw [byRules, if_pos hignored, scanFrom_blank _ _ _ (isBlank_of_ignored hignored)]
        exact hshorter (start + 1) rest (Nat.le_refl _)
      · cases hblank : Text.isBlank c with
        | true =>
          -- the rule for blanks takes all of them and makes no token
          have hrule : rules.find? (·.accepts c) = some ⟨Text.isBlank, true, none, []⟩ := by
            simp [rules, hblank]
          have hrest := hshorter (start + (rest.takeWhile Text.isBlank).length + 1)
            (rest.dropWhile Text.isBlank) (length_dropWhile_le _ _)
          rw [byRules_of_rule _ hignored hrule hrest, scanFrom_blank _ _ _ hblank,
            ← scanFrom_dropWhile_isBlank (start + 1) rest, Nat.add_right_comm]
          rfl
        | false =>
          cases hword : Text.isWord c with
          | true =>
            have hrule := find?_rules_of_isWord hblank hword
            have hrest := hshorter (start + (rest.takeWhile Text.isWord).length + 1)
              (rest.dropWhile Text.isWord) (length_dropWhile_le _ _)
            rw [byRules_of_rule _ hignored hrule hrest, scanFrom_word _ _ _ hblank hword, ofWord,
              wordKind_eq_lookup]
            rfl
          | false =>
            obtain ⟨rule, hrule, honce, htoken⟩ := exists_rule_of_symbol hblank hword
            have hmore : rule.more rest = [] := by rw [ScanRule.more, honce]; rfl
            have hleft : rule.left rest = rest := by rw [ScanRule.left, honce]; rfl
            have hrest := hshorter (start + 1) rest (Nat.le_refl _)
            rw [byRules_of_rule rule hignored hrule (by rw [hmore, hleft]; exact hrest), hmore,
              htoken, scanFrom_symbol _ _ _ hblank hword]
            rfl

end Token

end CubeCover
