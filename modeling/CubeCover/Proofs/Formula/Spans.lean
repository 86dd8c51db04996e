import CubeCover.Proofs.Formula.ScanRules

/-! Where the tokens of a text stand. A longest run of word characters is a word, any other character that is no
blank is a token of its own, and these are all tokens, from left to right. So the tokens share out the characters
that are no blanks. -/
namespace CubeCover

namespace Text

/-- The characters from one place up to, not including, another one. -/
def slice (cs : List Char) (start stop : Nat) : List Char := (cs.drop start).take (stop - start)

/-- A word character stands at a place. -/
def wordAt (cs : List Char) (i : Nat) : Bool := cs[i]?.any isWord

/-- A run of word characters that is as long as possible at both ends. -/
structure IsRun (cs : List Char) (start stop : Nat) : Prop where
  nonempty : start < stop
  inside : ∀ i < stop, start ≤ i → wordAt cs i = true
  before : 0 < start → wordAt cs (start - 1) = false
  after : wordAt cs stop = false

theorem wordAt_of_getElem? {cs : List Char} {i : Nat} {c : Char} (h : cs[i]? = some c) :
    wordAt cs i = isWord c := by
  rw [wordAt, h]
  rfl

theorem exists_of_wordAt {cs : List Char} {i : Nat} (h : wordAt cs i = true) :
    ∃ c, cs[i]? = some c ∧ isWord c = true := by
  rw [wordAt, Option.any_eq_true] at h
  exact h

theorem wordAt_drop (cs : List Char) (start i : Nat) :
    wordAt (cs.drop start) i = wordAt cs (start + i) := by
  rw [wordAt, List.getElem?_drop, wordAt]

/-- The word characters at the front of a text end where they end. -/
theorem wordAt_takeWhile (cs : List Char) :
    (∀ i < (cs.takeWhile isWord).length, wordAt cs i = true) ∧
      wordAt cs (cs.takeWhile isWord).length = false := by
  induction cs with
  | nil => exact ⟨by simp, rfl⟩
  | cons c cs ih =>
    cases hc : isWord c with
    | false =>
      rw [List.takeWhile_cons_of_neg (by simp [hc])]
      exact ⟨by simp, hc⟩
    | true =>
      rw [List.takeWhile_cons_of_pos hc]
      refine ⟨?_, ih.2⟩
      intro i hi
      cases i with
      | zero => exact hc
      | succ i => exact ih.1 i (Nat.lt_of_succ_lt_succ hi)

namespace IsRun

variable {cs : List Char} {start stop start' stop' i : Nat}

theorem stop_le_length (h : IsRun cs start stop) : stop ≤ cs.length := by
  have hnonempty := h.nonempty
  obtain ⟨c, hc, _⟩ := exists_of_wordAt (h.inside (stop - 1) (by omega) (by omega))
  have hlt := (List.getElem?_eq_some_iff.mp hc).1
  omega

/-- A run does not begin within another one. -/
theorem start_le (h : IsRun cs start stop) (h' : IsRun cs start' stop') (hstart : start ≤ i)
    (hstop' : i < stop') : start ≤ start' := by
  by_contra hlt
  have hbefore := h.before (by omega)
  rw [h'.inside (start - 1) (by omega) (by omega)] at hbefore
  cases hbefore

/-- A run does not end within another one. -/
theorem stop_le (h : IsRun cs start stop) (h' : IsRun cs start' stop') (hstart' : start' ≤ i)
    (hstop : i < stop) : stop' ≤ stop := by
  by_contra hlt
  have hafter := h.after
  rw [h'.inside stop (by omega) (by omega)] at hafter
  cases hafter

end IsRun

/-- No run goes on from before a place to behind it. -/
def IsCut (cs : List Char) (i : Nat) : Prop :=
  0 < i → wordAt cs i = true → wordAt cs (i - 1) = false

theorem isCut_of_wordAt {cs : List Char} {i : Nat} (h : wordAt cs i = false) : IsCut cs i := by
  intro _ hword
  rw [h] at hword
  cases hword

/-- A text may be cut behind a character that cannot stand in a word. -/
theorem isCut_succ {cs : List Char} {i : Nat} {c : Char} (hc : cs[i]? = some c)
    (hword : isWord c = false) : IsCut cs (i + 1) := by
  intro _ _
  rw [Nat.add_sub_cancel, wordAt_of_getElem? hc, hword]

/-- The word characters at a cut are a run. -/
theorem isRun_takeWhile {cs : List Char} {start : Nat} (hcut : IsCut cs start)
    (hstart : wordAt cs start = true) :
    IsRun cs start (start + ((cs.drop start).takeWhile isWord).length) := by
  obtain ⟨hinside, hafter⟩ := wordAt_takeWhile (cs.drop start)
  rw [wordAt_drop] at hafter
  refine ⟨?_, ?_, fun hpos => hcut hpos hstart, hafter⟩
  · -- the run would end at its first character otherwise
    by_contra hempty
    have hzero : ((cs.drop start).takeWhile isWord).length = 0 := by omega
    rw [hzero, Nat.add_zero, hstart] at hafter
    cases hafter
  · intro i hi hle
    have hword := hinside (i - start) (by omega)
    rw [wordAt_drop] at hword
    rwa [Nat.add_sub_cancel' hle] at hword

theorem length_slice {cs : List Char} {start stop : Nat} (h : stop ≤ cs.length) :
    (slice cs start stop).length = stop - start := by
  rw [slice, List.length_take, List.length_drop]
  omega

theorem slice_takeWhile (cs : List Char) (start : Nat) :
    slice cs start (start + ((cs.drop start).takeWhile isWord).length) =
      (cs.drop start).takeWhile isWord := by
  rw [slice, Nat.add_sub_cancel_left]
  exact (List.prefix_iff_eq_take.mp (List.takeWhile_prefix isWord)).symm

theorem drop_length_takeWhile (p : Char → Bool) (cs : List Char) :
    cs.drop (cs.takeWhile p).length = cs.dropWhile p := by
  calc cs.drop (cs.takeWhile p).length
      = (cs.takeWhile p ++ cs.dropWhile p).drop (cs.takeWhile p).length := by
        rw [List.takeWhile_append_dropWhile]
    _ = cs.dropWhile p := List.drop_left

/-- What stands at a place and behind it is the text from that place on. -/
theorem of_drop_eq_cons {cs : List Char} {start : Nat} {c : Char} {rest : List Char}
    (h : cs.drop start = c :: rest) : cs[start]? = some c ∧ cs.drop (start + 1) = rest := by
  constructor
  · rw [← List.head?_drop, h]
    rfl
  · rw [← List.tail_drop, h]
    rfl

end Text

namespace Token

/-- The tokens that stand in a text: the runs of word characters, whose kind is the one that is reserved for them
if there is one, the parentheses, and the other characters that are no blanks. -/
inductive Stands (cs : List Char) : Token → Prop
  | word {start stop : Nat} {text : String} (run : Text.IsRun cs start stop)
      (htext : text.toList = Text.slice cs start stop) :
      Stands cs ⟨(keywords.lookup text).getD .word, text, start, stop⟩
  | leftParen {i : Nat} (h : cs[i]? = some '(') : Stands cs ⟨.leftParen, "(", i, i + 1⟩
  | rightParen {i : Nat} (h : cs[i]? = some ')') : Stands cs ⟨.rightParen, ")", i, i + 1⟩
  | symbol {i : Nat} {c : Char} (h : cs[i]? = some c) (hblank : Text.isBlank c = false)
      (hword : Text.isWord c = false) (hopen : c ≠ '(') (hclose : c ≠ ')') :
      Stands cs ⟨.symbol, String.ofList [c], i, i + 1⟩

/-- A character stands in a token. -/
def Holds (t : Token) (i : Nat) : Prop := t.start ≤ i ∧ i < t.stop

variable {cs : List Char} {s t : Token} {i : Nat}

/-- The word of a run stops where the run stops. -/
theorem ofWord_slice {start stop : Nat} (run : Text.IsRun cs start stop) :
    ofWord start (Text.slice cs start stop) =
      ⟨(keywords.lookup (String.ofList (Text.slice cs start stop))).getD .word,
        String.ofList (Text.slice cs start stop), start, stop⟩ := by
  have hstop : start + (Text.slice cs start stop).length = stop := by
    have hnonempty := run.nonempty
    rw [Text.length_slice run.stop_le_length]
    omega
  rw [ofWord, wordKind_eq_lookup, hstop]

theorem stands_ofWord {start stop : Nat} (run : Text.IsRun cs start stop) :
    Stands cs (ofWord start (Text.slice cs start stop)) := by
  rw [ofWord_slice run]
  exact .word run String.toList_ofList

theorem stands_ofSymbol {c : Char} (h : cs[i]? = some c) (hblank : Text.isBlank c = false)
    (hword : Text.isWord c = false) : Stands cs (ofSymbol i c) := by
  by_cases hopen : c = '('
  · subst hopen
    exact .leftParen h
  · by_cases hclose : c = ')'
    · subst hclose
      exact .rightParen h
    · simp only [ofSymbol, hopen, hclose, if_false]
      exact .symbol h hblank hword hopen hclose

namespace Stands

/-- A token is told by its place: it is the word of a run, or the symbol of a character that no run has. -/
theorem word_or_symbol (h : Stands cs t) :
    (Text.IsRun cs t.start t.stop ∧ t = ofWord t.start (Text.slice cs t.start t.stop)) ∨
      (t.stop = t.start + 1 ∧ ∃ c, cs[t.start]? = some c ∧ Text.isBlank c = false ∧
        Text.isWord c = false ∧ t = ofSymbol t.start c) := by
  cases h with
  | @word start stop text run htext =>
    refine Or.inl ⟨run, ?_⟩
    rw [ofWord_slice run, ← htext, String.ofList_toList]
  | leftParen h => exact Or.inr ⟨rfl, '(', h, by decide, by decide, rfl⟩
  | rightParen h => exact Or.inr ⟨rfl, ')', h, by decide, by decide, rfl⟩
  | @symbol i c h hblank hword hopen hclose =>
    refine Or.inr ⟨rfl, c, h, hblank, hword, ?_⟩
    simp only [ofSymbol, hopen, hclose, if_false]

/-- The text of a token is what stands at its place. -/
theorem span (h : Stands cs t) :
    t.start < t.stop ∧ t.stop ≤ cs.length ∧ t.text.toList = Text.slice cs t.start t.stop := by
  have hsingle {i : Nat} {c : Char} (hc : cs[i]? = some c) :
      i < i + 1 ∧ i + 1 ≤ cs.length ∧ (String.ofList [c]).toList = Text.slice cs i (i + 1) := by
    obtain ⟨hlt, rfl⟩ := List.getElem?_eq_some_iff.mp hc
    refine ⟨Nat.lt_succ_self i, hlt, ?_⟩
    rw [String.toList_ofList, Text.slice, Nat.add_sub_cancel_left, List.drop_eq_getElem_cons hlt]
    rfl
  cases h with
  | word run htext => exact ⟨run.nonempty, run.stop_le_length, htext⟩
  | leftParen h => exact hsingle h
  | rightParen h => exact hsingle h
  | symbol h => exact hsingle h

theorem isBlank_eq_false (h : Stands cs t) (hi : t.Holds i) {c : Char} (hc : cs[i]? = some c) :
    Text.isBlank c = false := by
  rcases h.word_or_symbol with ⟨run, _⟩ | ⟨hstop, d, hd, hblank, _, _⟩
  · have hword := run.inside i hi.2 hi.1
    rw [Text.wordAt_of_getElem? hc] at hword
    exact Text.isBlank_of_isWord hword
  · -- the place of the character is the only one
    have hplace : i = t.start := by
      have hstart := hi.1
      have hend := hi.2
      omega
    rw [hplace, hd] at hc
    cases hc
    exact hblank

/-- No character stands in two tokens. -/
theorem unique (hs : Stands cs s) (ht : Stands cs t) (hsi : s.Holds i) (hti : t.Holds i) :
    s = t := by
  obtain ⟨hs1, hs2⟩ := hsi
  obtain ⟨ht1, ht2⟩ := hti
  rcases hs.word_or_symbol with ⟨runs, hsword⟩ | ⟨hsstop, c, hc, _, hcword, hssymbol⟩
  · rcases ht.word_or_symbol with ⟨runt, htword⟩ | ⟨htstop, d, hd, _, hdword, _⟩
    · have hstart : s.start = t.start :=
        Nat.le_antisymm (runs.start_le runt hs1 ht2) (runt.start_le runs ht1 hs2)
      have hstop : s.stop = t.stop :=
        Nat.le_antisymm (runt.stop_le runs hs1 ht2) (runs.stop_le runt ht1 hs2)
      rw [hsword, htword, hstart, hstop]
    · -- the character would be a word character and none
      have hword := runs.inside i hs2 hs1
      have hplace : i = t.start := by omega
      rw [hplace, Text.wordAt_of_getElem? hd, hdword] at hword
      cases hword
  · have hplace : i = s.start := by omega
    rcases ht.word_or_symbol with ⟨runt, _⟩ | ⟨htstop, d, hd, _, _, htsymbol⟩
    · have hword := runt.inside i ht2 ht1
      rw [hplace, Text.wordAt_of_getElem? hc, hcword] at hword
      cases hword
    · have hstart : s.start = t.start := by omega
      rw [hstart, hd] at hc
      cases hc
      rw [hssymbol, htsymbol, hstart]

end Stands

/-- The tokens that stand in a text from a cut on, from left to right. -/
structure ScannedFrom (cs : List Char) (start : Nat) (tokens : List Token) : Prop where
  stands : ∀ t ∈ tokens, Stands cs t
  later : ∀ t ∈ tokens, start ≤ t.start
  ordered : tokens.Pairwise fun s t => s.stop ≤ t.start
  complete : ∀ i c, start ≤ i → cs[i]? = some c → Text.isBlank c = false → ∃ t ∈ tokens, t.Holds i

namespace ScannedFrom

variable {start : Nat} {tokens : List Token}

theorem blank {c : Char} (hc : cs[start]? = some c) (hblank : Text.isBlank c = true)
    (h : ScannedFrom cs (start + 1) tokens) : ScannedFrom cs start tokens := by
  refine ⟨h.stands, ?_, h.ordered, ?_⟩
  · intro t ht
    have hlater := h.later t ht
    omega
  · intro i d hi hd hdblank
    have hne : i ≠ start := by
      rintro rfl
      rw [hc] at hd
      cases hd
      rw [hblank] at hdblank
      cases hdblank
    exact h.complete i d (by omega) hd hdblank

theorem token (ht : Stands cs t) (h : ScannedFrom cs t.stop tokens) :
    ScannedFrom cs t.start (t :: tokens) := by
  have hlt := ht.span.1
  refine ⟨?_, ?_, ?_, ?_⟩
  · exact List.forall_mem_cons.mpr ⟨ht, h.stands⟩
  · intro s hs
    rcases List.mem_cons.mp hs with rfl | hs
    · exact Nat.le_refl _
    · have hlater := h.later s hs
      omega
  · exact List.pairwise_cons.mpr ⟨h.later, h.ordered⟩
  · intro i c hi hc hblank
    by_cases hin : i < t.stop
    · exact ⟨t, List.mem_cons_self, hi, hin⟩
    · obtain ⟨s, hs, hholds⟩ := h.complete i c (by omega) hc hblank
      exact ⟨s, List.mem_cons_of_mem t hs, hholds⟩

end ScannedFrom

/-- From every cut on, the scanner finds the tokens that stand there. -/
theorem scannedFrom_scanFrom (cs rest : List Char) (start : Nat) (hrest : cs.drop start = rest)
    (hcut : Text.IsCut cs start) : ScannedFrom cs start (scanFrom start rest) := by
  induction rest using scan_induction generalizing start with
  | nil =>
    rw [scanFrom_nil]
    refine ⟨by simp, by simp, List.Pairwise.nil, ?_⟩
    intro i c hi hc
    have hlength := List.drop_eq_nil_iff.mp hrest
    have hlt := (List.getElem?_eq_some_iff.mp hc).1
    omega
  | blank c rest hblank ih =>
    obtain ⟨hc, hdrop⟩ := Text.of_drop_eq_cons hrest
    have hword : Text.isWord c = false := by
      apply Bool.eq_false_iff.mpr
      intro hword
      rw [Text.isBlank_of_isWord hword] at hblank
      cases hblank
    rw [scanFrom_blank _ _ _ hblank]
    exact ScannedFrom.blank hc hblank (ih (start + 1) hdrop (Text.isCut_succ hc hword))
  | word c rest hblank hword ih =>
    obtain ⟨hc, hdrop⟩ := Text.of_drop_eq_cons hrest
    have htake : (cs.drop start).takeWhile Text.isWord = c :: rest.takeWhile Text.isWord := by
      rw [hrest, List.takeWhile_cons_of_pos hword]
    have run := Text.isRun_takeWhile hcut ((Text.wordAt_of_getElem? hc).trans hword)
    have hslice := Text.slice_takeWhile cs start
    rw [htake] at run hslice
    have htoken := stands_ofWord run
    rw [hslice] at htoken
    rw [scanFrom_word _ _ _ hblank hword]
    apply ScannedFrom.token htoken
    apply ih
    · calc cs.drop (start + (rest.takeWhile Text.isWord).length + 1)
          = (cs.drop (start + 1)).drop (rest.takeWhile Text.isWord).length := by
            rw [List.drop_drop, Nat.add_right_comm]
        _ = rest.dropWhile Text.isWord := by rw [hdrop, Text.drop_length_takeWhile]
    · exact Text.isCut_of_wordAt run.after
  | symbol c rest hblank hword ih =>
    obtain ⟨hc, hdrop⟩ := Text.of_drop_eq_cons hrest
    rw [scanFrom_symbol _ _ _ hblank hword]
    apply ScannedFrom.token (stands_ofSymbol hc hblank hword)
    exact ih (start + 1) hdrop (Text.isCut_succ hc hword)

theorem scannedFrom_scan (text : String) : ScannedFrom text.toList 0 (scan text) := by
  apply scannedFrom_scanFrom text.toList text.toList 0 List.drop_zero
  intro hpos
  exact absurd hpos (Nat.lt_irrefl 0)

theorem mem_scan_iff (text : String) (t : Token) : t ∈ scan text ↔ Stands text.toList t := by
  have hscan := scannedFrom_scan text
  constructor
  · exact hscan.stands t
  · intro ht
    obtain ⟨hlt, hstop, _⟩ := ht.span
    have hstart : t.Holds t.start := ⟨Nat.le_refl _, hlt⟩
    have hbound : t.start < text.toList.length := by omega
    obtain ⟨c, hc⟩ : ∃ c, text.toList[t.start]? = some c := ⟨_, List.getElem?_eq_getElem hbound⟩
    -- the token that has the first character of this one is this one
    obtain ⟨s, hs, hholds⟩ :=
      hscan.complete t.start _ (Nat.zero_le _) hc (ht.isBlank_eq_false hstart hc)
    have hsame := (hscan.stands s hs).unique ht hholds hstart
    rwa [hsame] at hs

theorem wordKind_eq_keyword_iff (text : String) (keyword : String × TokenKind)
    (h : keyword ∈ keywords) : wordKind text = keyword.2 ↔ text = keyword.1 := by
  simp only [keywords, List.mem_cons, List.not_mem_nil, or_false] at h
  unfold wordKind
  rcases h with rfl | rfl | rfl | rfl | rfl <;> split_ifs <;> simp_all

/-- A token has the kind of a keyword just if its text is the keyword. -/
theorem kind_eq_keyword_iff (h : Stands cs t) (keyword : String × TokenKind)
    (hkeyword : keyword ∈ keywords) : t.kind = keyword.2 ↔ t.text = keyword.1 := by
  rcases h.word_or_symbol with ⟨_, heq⟩ | ⟨_, c, _, _, _, heq⟩
  · rw [heq]
    exact wordKind_eq_keyword_iff _ keyword hkeyword
  · -- a keyword is longer than a symbol
    have hlength : keyword.1.length ≠ 1 := by
      have hall : keywords.all (fun keyword => keyword.1.length != 1) = true := by decide
      simpa using List.all_eq_true.mp hall keyword hkeyword
    have htext : t.text ≠ keyword.1 := by
      intro hsame
      rw [heq] at hsame
      exact hlength (by rw [← hsame]; simp [ofSymbol])
    have hkind : t.kind ≠ keyword.2 := by
      have hall : keywords.all (fun keyword => keyword.2 ∉
          [TokenKind.leftParen, .rightParen, .symbol]) = true := by decide
      have hnone := List.all_eq_true.mp hall keyword hkeyword
      rw [heq, ofSymbol]
      intro hsame
      rw [← hsame] at hnone
      split_ifs at hnone <;> simp at hnone
    exact iff_of_false hkind htext

end Token

/-- The tokens of a text are those that the ordered rules make, which refuse no text. Each has the text that stands
at its place, and begins behind the one before it. A character stands in a token just if it is no blank. All
maximal runs of word characters, all parentheses and all other characters that are no blanks are tokens, and only
these. A token has the kind of a keyword just if its text is the keyword. -/
theorem tokens_share_out_text (text : String) :
    Token.byRules 0 text.toList = .ok (Token.scan text) ∧
    (∀ t ∈ Token.scan text, t.start < t.stop ∧ t.stop ≤ text.toList.length ∧
      t.text.toList = Text.slice text.toList t.start t.stop) ∧
    (Token.scan text).Pairwise (fun s t => s.stop ≤ t.start) ∧
    (∀ i c, text.toList[i]? = some c →
      (Text.isBlank c = false ↔ ∃ t ∈ Token.scan text, t.Holds i)) ∧
    (∀ t, t ∈ Token.scan text ↔ Token.Stands text.toList t) ∧
    (∀ start stop, Text.IsRun text.toList start stop →
      ∃! t, t ∈ Token.scan text ∧ t.start < stop ∧ start < t.stop) ∧
    ∀ t ∈ Token.scan text, ∀ keyword ∈ Token.keywords, t.kind = keyword.2 ↔ t.text = keyword.1 := by
  have hscan := Token.scannedFrom_scan text
  refine ⟨Token.byRules_eq_scanFrom 0 text.toList, ?_, hscan.ordered, ?_, Token.mem_scan_iff text,
    ?_, ?_⟩
  · intro t ht
    exact (hscan.stands t ht).span
  · intro i c hc
    constructor
    · exact hscan.complete i c (Nat.zero_le i) hc
    · rintro ⟨t, ht, hi⟩
      exact (hscan.stands t ht).isBlank_eq_false hi hc
  · intro start stop run
    have htoken : Token.Stands text.toList _ := .word run String.toList_ofList
    refine ⟨_, ⟨(Token.mem_scan_iff text _).mpr htoken, run.nonempty, run.nonempty⟩, ?_⟩
    rintro t ⟨ht, hstart, hstop⟩
    have hlt := (hscan.stands t ht).span.1
    have hnonempty := run.nonempty
    -- the later one of the two starts stands in both
    apply (hscan.stands t ht).unique htoken
    · exact ⟨Nat.le_max_left t.start start, Nat.max_lt.mpr ⟨hlt, hstop⟩⟩
    · exact ⟨Nat.le_max_right t.start start, Nat.max_lt.mpr ⟨hstart, hnonempty⟩⟩
  · intro t ht keyword hkeyword
    exact Token.kind_eq_keyword_iff (hscan.stands t ht) keyword hkeyword

/-- A keyword before a parenthesis, a word that begins with a keyword, and a symbol. -/
theorem tokens_share_out_text_of_four :
    let text := "or(order &"
    Token.scan text = [⟨.disjunction, "or", 0, 2⟩, ⟨.leftParen, "(", 2, 3⟩, ⟨.word, "order", 3, 8⟩,
        ⟨.symbol, "&", 9, 10⟩] ∧
      Token.byRules 0 text.toList = .ok (Token.scan text) ∧
      Text.IsRun text.toList 3 8 ∧
      (∃! t, t ∈ Token.scan text ∧ t.start < 8 ∧ 3 < t.stop) ∧
      (⟨.symbol, "&", 9, 10⟩ : Token) ∈ Token.scan text ∧
      "or".toList = Text.slice text.toList 0 2 := by
  intro text
  have hscan : Token.scan "or(order &" = [⟨.disjunction, "or", 0, 2⟩, ⟨.leftParen, "(", 2, 3⟩,
      ⟨.word, "order", 3, 8⟩, ⟨.symbol, "&", 9, 10⟩] := by cbv
  obtain ⟨hrules, hspan, _, _, hstands, hrun, _⟩ := tokens_share_out_text text
  have run : Text.IsRun text.toList 3 8 := ⟨by decide, by decide, by decide, by decide⟩
  have hsymbol : Token.Stands text.toList ⟨.symbol, "&", 9, 10⟩ :=
    .symbol (by decide) (by decide) (by decide) (by decide) (by decide)
  refine ⟨hscan, hrules, run, hrun 3 8 run, (hstands _).mpr hsymbol, ?_⟩
  exact (hspan ⟨.disjunction, "or", 0, 2⟩ (by rw [hscan]; exact List.mem_cons_self)).2.2

end CubeCover
