import CubeCover.Formula.Token
import Mathlib.Data.List.TakeWhile
import Mathlib.Tactic.SplitIfs

/-! How the tokens of a text hang together with those of its parts. A text may be cut before every
character that cannot stand in a word, the place of a text only shifts its tokens, and a token is
read from its own text again. -/
namespace CubeCover

/-- The kinds of tokens that are atoms of formulas. -/
def TokenKind.isAtom : TokenKind → Bool
  | .word | .symbol | .verum | .falsum => true
  | _ => false

/-- A name that is read as a single token, and that token is an atom. -/
def IsLexeme (name : String) : Prop :=
  ∃ token, Token.scan name = [token] ∧ token.kind.isAtom = true ∧ token.text = name

theorem not_isLexeme_empty : ¬ IsLexeme "" := by
  rintro ⟨token, hscan, _⟩
  have hnil : Token.scan "" = [] := by rw [Token.scan, String.toList_empty, Token.scanFrom]
  rw [hnil] at hscan
  cases hscan

/-- No range of blanks touches a range of letters and numbers. -/
theorem Text.blankRanges_apart :
    (Text.blankRanges.all fun r => Text.alphanumericRanges.all fun s =>
      decide (r.2 < s.1) || decide (s.2 < r.1)) = true := by decide +kernel

theorem Text.isBlank_of_isWord {c : Char} (h : Text.isWord c = true) : Text.isBlank c = false := by
  apply Bool.eq_false_iff.mpr
  intro hblank
  rcases Bool.or_eq_true_iff.mp h with hline | hletter
  · rw [beq_iff_eq.mp hline] at hblank
    exact absurd hblank (by decide)
  · -- the character would lie in a range of either kind
    obtain ⟨r, hr, hrlow, hrhigh⟩ := Text.exists_range hblank
    obtain ⟨s, hs, hslow, hshigh⟩ := Text.exists_range hletter
    have hapart := List.all_eq_true.mp (List.all_eq_true.mp Text.blankRanges_apart r hr) s hs
    rw [Bool.or_eq_true, decide_eq_true_eq, decide_eq_true_eq] at hapart
    omega

theorem Text.ne_of_isWord {c d : Char} (hc : Text.isWord c = true) (hd : Text.isWord d = false) :
    c ≠ d := by
  intro heq
  rw [heq, hd] at hc
  cases hc

theorem takeWhile_append_of_stop (p : Char → Bool) (cs : List Char) (d : Char) (ds : List Char)
    (hd : p d = false) :
    (cs ++ d :: ds).takeWhile p = cs.takeWhile p ∧
      (cs ++ d :: ds).dropWhile p = cs.dropWhile p ++ d :: ds := by
  induction cs with
  | nil => simp [hd]
  | cons c cs ih =>
    cases hc : p c with
    | true => simp [hc, ih]
    | false => simp [hc]

namespace Token

theorem scanFrom_nil (start : Nat) : scanFrom start [] = [] := by
  rw [scanFrom]

theorem scanFrom_blank (start : Nat) (c : Char) (rest : List Char) (hc : Text.isBlank c = true) :
    scanFrom start (c :: rest) = scanFrom (start + 1) rest := by
  rw [scanFrom, if_pos hc]

theorem scanFrom_word (start : Nat) (c : Char) (rest : List Char) (hblank : Text.isBlank c = false)
    (hc : Text.isWord c = true) :
    scanFrom start (c :: rest) =
      ofWord start (c :: rest.takeWhile Text.isWord) ::
        scanFrom (start + (rest.takeWhile Text.isWord).length + 1)
          (rest.dropWhile Text.isWord) := by
  rw [scanFrom, if_neg (by simp [hblank]), if_pos hc]
  rfl

theorem scanFrom_symbol (start : Nat) (c : Char) (rest : List Char)
    (hblank : Text.isBlank c = false) (hc : Text.isWord c = false) :
    scanFrom start (c :: rest) = ofSymbol start c :: scanFrom (start + 1) rest := by
  rw [scanFrom, if_neg (by simp [hblank]), if_neg (by simp [hc])]

/-- To prove something of all texts, go from the text after the first token or blank to the
whole. -/
theorem scan_induction {P : List Char → Prop} (nil : P [])
    (blank : ∀ c rest, Text.isBlank c = true → P rest → P (c :: rest))
    (word : ∀ c rest, Text.isBlank c = false → Text.isWord c = true →
      P (rest.dropWhile Text.isWord) → P (c :: rest))
    (symbol : ∀ c rest, Text.isBlank c = false → Text.isWord c = false → P rest → P (c :: rest))
    (cs : List Char) : P cs := by
  induction hn : cs.length using Nat.strongRecOn generalizing cs with
  | ind n ih =>
    cases cs with
    | nil => exact nil
    | cons c rest =>
      have hless : rest.length < n := by
        rw [← hn]
        exact Nat.lt_succ_self _
      cases hblank : Text.isBlank c with
      | true => exact blank c rest hblank (ih rest.length hless rest rfl)
      | false =>
        cases hword : Text.isWord c with
        | true =>
          have hdrop := length_dropWhile_le Text.isWord rest
          exact word c rest hblank hword
            (ih _ (Nat.lt_of_le_of_lt hdrop hless) (rest.dropWhile Text.isWord) rfl)
        | false => exact symbol c rest hblank hword (ih rest.length hless rest rfl)

/-- A text may be cut before a character that cannot stand in a word. -/
theorem scanFrom_append (start : Nat) (cs : List Char) (d : Char) (ds : List Char)
    (hd : Text.isWord d = false) :
    scanFrom start (cs ++ d :: ds) =
      scanFrom start cs ++ scanFrom (start + cs.length) (d :: ds) := by
  induction cs using scan_induction generalizing start with
  | nil => rw [scanFrom_nil]; rfl
  | blank c rest hc ih =>
    rw [List.cons_append, scanFrom_blank _ _ _ hc, scanFrom_blank _ _ _ hc, ih, List.length_cons,
      Nat.add_right_comm, Nat.add_assoc]
  | word c rest hblank hc ih =>
    have hcut := takeWhile_append_of_stop Text.isWord rest d ds hd
    have hlength : (rest.takeWhile Text.isWord).length + (rest.dropWhile Text.isWord).length =
        rest.length := by
      rw [← List.length_append, List.takeWhile_append_dropWhile]
    have hplace : start + (rest.takeWhile Text.isWord).length + 1 +
        (rest.dropWhile Text.isWord).length = start + (c :: rest).length := by
      rw [List.length_cons]
      omega
    rw [List.cons_append, scanFrom_word _ _ _ hblank hc, scanFrom_word _ _ _ hblank hc, hcut.1,
      hcut.2, ih, hplace, List.cons_append]
  | symbol c rest hblank hc ih =>
    rw [List.cons_append, scanFrom_symbol _ _ _ hblank hc, scanFrom_symbol _ _ _ hblank hc, ih,
      List.cons_append, List.length_cons, Nat.add_right_comm, Nat.add_assoc]

/-- The token at another place. -/
def shift (offset : Nat) (token : Token) : Token :=
  { token with start := offset + token.start, stop := offset + token.stop }

theorem scanFrom_add (offset start : Nat) (cs : List Char) :
    scanFrom (offset + start) cs = (scanFrom start cs).map (shift offset) := by
  induction cs using scan_induction generalizing start with
  | nil => rw [scanFrom_nil, scanFrom_nil]; rfl
  | blank c rest hc ih =>
    rw [scanFrom_blank _ _ _ hc, scanFrom_blank _ _ _ hc, Nat.add_assoc, ih]
  | word c rest hblank hc ih =>
    rw [scanFrom_word _ _ _ hblank hc, scanFrom_word _ _ _ hblank hc, List.map_cons, ← ih]
    simp only [ofWord, shift, Nat.add_assoc]
  | symbol c rest hblank hc ih =>
    rw [scanFrom_symbol _ _ _ hblank hc, scanFrom_symbol _ _ _ hblank hc, List.map_cons, ← ih]
    simp only [ofSymbol, shift, Nat.add_assoc]

/-- The text of a token is read as that token alone. -/
theorem scan_text_of_mem (token : Token) (start : Nat) (cs : List Char)
    (h : token ∈ scanFrom start cs) :
    ∃ token', scan token.text = [token'] ∧ token'.kind = token.kind ∧ token'.text = token.text := by
  induction cs using scan_induction generalizing start with
  | nil =>
    rw [scanFrom_nil] at h
    exact absurd h (by simp)
  | blank c rest hc ih =>
    rw [scanFrom_blank _ _ _ hc] at h
    exact ih (start + 1) h
  | word c rest hblank hc ih =>
    rw [scanFrom_word _ _ _ hblank hc, List.mem_cons] at h
    rcases h with rfl | h
    · -- the word characters up to the first other one are a single word
      refine ⟨ofWord 0 (c :: rest.takeWhile Text.isWord), ?_, rfl, rfl⟩
      have hdrop : (rest.takeWhile Text.isWord).dropWhile Text.isWord = [] := by
        rw [List.dropWhile_eq_nil_iff]
        intro d hd
        exact List.mem_takeWhile_imp hd
      rw [scan, ofWord, String.toList_ofList, scanFrom_word _ _ _ hblank hc, List.takeWhile_idem,
        hdrop, scanFrom_nil]
    · exact ih _ h
  | symbol c rest hblank hc ih =>
    rw [scanFrom_symbol _ _ _ hblank hc, List.mem_cons] at h
    rcases h with rfl | h
    · refine ⟨ofSymbol 0 c, ?_, rfl, rfl⟩
      rw [scan, ofSymbol, String.toList_ofList, scanFrom_symbol _ _ _ hblank hc, scanFrom_nil]
    · exact ih (start + 1) h

theorem scanFrom_keyword (start : Nat) (c : Char) (rest : List Char)
    (hblank : Text.isBlank c = false) (hc : Text.isWord c = true)
    (hrest : rest.all Text.isWord = true) :
    scanFrom start (c :: rest) = [ofWord start (c :: rest)] := by
  have hword := List.all_eq_true.mp hrest
  rw [scanFrom_word _ _ _ hblank hc, List.takeWhile_eq_self_iff.mpr hword,
    List.dropWhile_eq_nil_iff.mpr hword, scanFrom_nil]

theorem scanFrom_append_blank (start : Nat) (cs ds : List Char) :
    scanFrom start (cs ++ ' ' :: ds) =
      scanFrom start cs ++ scanFrom (start + cs.length + 1) ds := by
  rw [scanFrom_append _ _ _ _ (by decide), scanFrom_blank _ _ _ (by decide)]

theorem kind_of_mem (token : Token) (start : Nat) (cs : List Char)
    (h : token ∈ scanFrom start cs) :
    token.kind = wordKind token.text ∨ token.kind = .leftParen ∨ token.kind = .rightParen ∨
      token.kind = .symbol := by
  induction cs using scan_induction generalizing start with
  | nil =>
    rw [scanFrom_nil] at h
    exact absurd h (by simp)
  | blank c rest hc ih =>
    rw [scanFrom_blank _ _ _ hc] at h
    exact ih (start + 1) h
  | word c rest hblank hc ih =>
    rw [scanFrom_word _ _ _ hblank hc, List.mem_cons] at h
    rcases h with rfl | h
    · exact Or.inl rfl
    · exact ih _ h
  | symbol c rest hblank hc ih =>
    rw [scanFrom_symbol _ _ _ hblank hc, List.mem_cons] at h
    rcases h with rfl | h
    · -- a single character is a parenthesis or a symbol
      simp only [ofSymbol]
      split
      · exact Or.inr (Or.inl rfl)
      · split
        · exact Or.inr (Or.inr (Or.inl rfl))
        · exact Or.inr (Or.inr (Or.inr rfl))
    · exact ih (start + 1) h

theorem eq_of_wordKind (text : String) :
    (wordKind text = .verum → text = "true") ∧ (wordKind text = .falsum → text = "false") := by
  unfold wordKind
  split_ifs with hnot hand hor htrue hfalse <;> simp_all

theorem text_of_constant (token : Token) (start : Nat) (cs : List Char)
    (h : token ∈ scanFrom start cs) :
    (token.kind = .verum → token.text = "true") ∧
      (token.kind = .falsum → token.text = "false") := by
  have hword := eq_of_wordKind token.text
  rcases kind_of_mem token start cs h with hkind | hkind | hkind | hkind
  · rw [hkind]
    exact hword
  all_goals
    rw [hkind]
    exact ⟨fun hne => absurd hne (by decide), fun hne => absurd hne (by decide)⟩

theorem isLexeme_of_mem (token : Token) (start : Nat) (cs : List Char)
    (h : token ∈ scanFrom start cs) (hatom : token.kind.isAtom = true) : IsLexeme token.text := by
  obtain ⟨token', hscan, hkind, htext⟩ := scan_text_of_mem token start cs h
  exact ⟨token', hscan, hkind ▸ hatom, htext⟩

/-- A lexeme is a single token wherever it stands. -/
theorem scanFrom_lexeme (name : String) (h : IsLexeme name) (start : Nat) :
    ∃ token, scanFrom start name.toList = [token] ∧ token.kind.isAtom = true ∧
      token.text = name := by
  obtain ⟨token, hscan, hatom, htext⟩ := h
  refine ⟨token.shift start, ?_, hatom, htext⟩
  calc scanFrom start name.toList
      = (scanFrom 0 name.toList).map (shift start) := scanFrom_add start 0 name.toList
    _ = [token.shift start] := congrArg (List.map (shift start)) hscan

end Token

/-- A name of one or more word characters that is none of the three words for negation and connectives. -/
def IsWord (name : String) : Prop :=
  name ≠ "" ∧ name.toList.all Text.isWord = true ∧ name ∉ ["not", "and", "or"]

instance (name : String) : Decidable (IsWord name) :=
  inferInstanceAs (Decidable (_ ∧ _ ∧ _))

theorem IsWord.exists_cons {name : String} (h : IsWord name) :
    ∃ c cs, name.toList = c :: cs ∧ Text.isWord c = true ∧ cs.all Text.isWord = true := by
  cases hcs : name.toList with
  | nil => exact absurd (String.toList_inj.mp hcs) h.1
  | cons c cs =>
    have hall := h.2.1
    rw [hcs, List.all_cons, Bool.and_eq_true] at hall
    exact ⟨c, cs, rfl, hall.1, hall.2⟩

theorem IsWord.isLexeme {name : String} (h : IsWord name) : IsLexeme name := by
  obtain ⟨c, cs, hlist, hc, hcs⟩ := h.exists_cons
  have hname : String.ofList (c :: cs) = name := by rw [← hlist, String.ofList_toList]
  refine ⟨Token.ofWord 0 (c :: cs), ?_, ?_, hname⟩
  · rw [Token.scan, hlist]
    exact Token.scanFrom_keyword 0 c cs (Text.isBlank_of_isWord hc) hc hcs
  · -- the token is no keyword, so it is a constant or a word
    have hno := h.2.2
    simp only [List.mem_cons, List.not_mem_nil, or_false, not_or] at hno
    show (Token.wordKind (String.ofList (c :: cs))).isAtom = true
    rw [hname, Token.wordKind, if_neg hno.1, if_neg hno.2.1, if_neg hno.2.2]
    split
    · rfl
    · split <;> rfl

end CubeCover
