import RSpark.CountedLanguages
import RSpark.Expr

/- LIKE patterns and the regular expressions that they are compiled to: where a wildcard has no line
   break to match, and every escaped character may be escaped in a regular expression, they
   describe the same texts. -/
namespace RSparkLikePatterns
open RSparkValue RSparkExpr CountedLanguages

section Patterns

inductive Token where
  | anySequence | anyChar
  | char (c : Char)
  deriving DecidableEq, Repr

/-- A backslash makes the next character literal, and stands for nothing where there is none. -/
def tokens : List Char → List Token
  | [] => []
  | '%' :: cs => .anySequence :: tokens cs
  | '_' :: cs => .anyChar :: tokens cs
  | '\\' :: next :: cs => .char next :: tokens cs
  | '\\' :: [] => []
  | c :: cs => .char c :: tokens cs

/-- The words that a token matches, its wildcards over the characters that pass. -/
def Token.words (wild : Char → Prop) : Token → Language Char
  | .anySequence => allOf wild
  | .anyChar => single wild
  | .char c => {[c]}

def Matches (wild : Char → Prop) (ts : List Token) (w : List Char) : Prop :=
  w ∈ (ts.map (Token.words wild)).prod

def Likes (pattern target : String) : Prop :=
  Matches (fun _ => True) (tokens pattern.toList) target.toList

def literalBreaks (pattern : String) : Nat := (tokens pattern.toList).count (.char '\n')

def matchTokens (wild : Char → Bool) : List Token → List Char → Bool
  | [], cs => cs.isEmpty
  | .anySequence :: ts, cs =>
      (List.range (cs.length + 1)).any fun k =>
        (cs.take k).all wild && matchTokens wild ts (cs.drop k)
  | .anyChar :: ts, cs =>
      match cs with
      | [] => false
      | c :: cs => wild c && matchTokens wild ts cs
  | .char d :: ts, cs =>
      match cs with
      | [] => false
      | c :: cs => c = d && matchTokens wild ts cs

theorem matchTokens_iff (wild : Char → Bool) (ts : List Token) (cs : List Char) :
    matchTokens wild ts cs = true ↔ Matches (fun c => wild c = true) ts cs := by
  induction ts generalizing cs with
  | nil => exact List.isEmpty_iff
  | cons t ts ih =>
    cases t with
    | anySequence =>
      rw [Matches, mem_prod_cons]
      simp only [matchTokens, List.any_eq_true, Bool.and_eq_true, List.all_eq_true, ih]
      constructor
      · rintro ⟨k, _, pass, rest⟩
        exact ⟨cs.take k, pass, cs.drop k, rest, List.take_append_drop k cs⟩
      · rintro ⟨u, pass, v, rest, rfl⟩
        refine ⟨u.length, List.mem_range.mpr ?_, ?_, ?_⟩
        · rw [List.length_append]
          omega
        · rw [List.take_left]
          exact pass
        · rw [List.drop_left]
          exact rest
    | anyChar =>
      have is : Token.words (fun c => wild c = true) .anyChar = single fun c => wild c = true := rfl
      cases cs with
      | nil => exact iff_of_false Bool.false_ne_true (nil_not_mem_single is _)
      | cons c cs =>
        rw [matchTokens, Bool.and_eq_true, ih]
        exact (cons_mem_single is).symm
    | char d =>
      have is : Token.words (fun c => wild c = true) (.char d) = single (· = d) :=
        (single_eq d).symm
      cases cs with
      | nil => exact iff_of_false Bool.false_ne_true (nil_not_mem_single is _)
      | cons c cs =>
        rw [matchTokens, Bool.and_eq_true, decide_eq_true_eq, ih]
        exact (cons_mem_single is).symm

end Patterns

section Pieces

/-- What a pattern is compiled to: wildcards, characters quoted by the library, and characters
    behind a backslash. -/
inductive Piece where
  | anySequence | anyChar
  | quoted (c : Char)
  | escaped (c : Char)
  deriving DecidableEq, Repr

def pieces : List Char → List Piece
  | [] => []
  | '%' :: cs => .anySequence :: pieces cs
  | '_' :: cs => .anyChar :: pieces cs
  | '\\' :: next :: cs => .escaped next :: pieces cs
  | '\\' :: [] => []
  | c :: cs => .quoted c :: pieces cs

def Piece.text [Regex] : Piece → String
  | .anySequence => ".*"
  | .anyChar => "."
  | .quoted c => Regex.escape (String.ofList [c])
  | .escaped c => String.ofList ['\\', c]

def piecesText [Regex] : List Piece → String
  | [] => ""
  | p :: ps => p.text ++ piecesText ps

theorem sqlLikeToRegex_eq [Regex] (cs : List Char) :
    sqlLikeToRegex cs = piecesText (pieces cs) := by
  fun_induction pieces cs with
  | case1 => rfl
  | case2 cs ih => rw [sqlLikeToRegex, ih]; rfl
  | case3 cs ih => rw [sqlLikeToRegex, ih]; rfl
  | case4 next cs ih => rw [sqlLikeToRegex, ih]; rfl
  | case5 => rfl
  | case6 c cs any one escape last ih =>
    rw [sqlLikeToRegex, ih]
    · rfl
    all_goals assumption

/-- The words that the regular expression's part matches: the dot is any character but a line
    break, and the star repeats it. -/
def Piece.words : Piece → Language Char
  | .anySequence => KStar.kstar (single (· ≠ '\n'))
  | .anyChar => single (· ≠ '\n')
  | .quoted c | .escaped c => {[c]}

/-- A backslash may stand before every character of ASCII but digits, letters, < and >. -/
def escapable (c : Char) : Bool := c.toNat < 128 && !c.isAlphanum && c != '<' && c != '>'

def escapeLetters : List Char := "aftnrvAzbBdswDSWxuUpP<>".toList

/-- A character that must not stand behind a backslash. -/
def invalidEscape (c : Char) : Bool := !escapable c && c ∉ escapeLetters

/-- The library's documentation, of the regular expressions that patterns are compiled to: the
    anchors ask for the whole text, parts match one after another, an invalid escape is an error
    and so is an expression beyond the size limit. -/
structure Documented [Regex] (tooBig : String → Prop) : Prop where
  compiles : ∀ ps : List Piece, (∀ c, .escaped c ∈ ps → escapable c = true) →
    ¬ tooBig s!"^{piecesText ps}$" → ∃ isMatch,
      Regex.compile s!"^{piecesText ps}$" = .ok isMatch ∧
      ∀ target, isMatch target = true ↔ target.toList ∈ (ps.map Piece.words).prod
  limited : ∀ ps : List Piece, tooBig s!"^{piecesText ps}$" →
    ∃ e, Regex.compile s!"^{piecesText ps}$" = .error e
  rejects : ∀ (ps : List Piece) (c : Char), .escaped c ∈ ps → invalidEscape c = true →
    ∃ e, Regex.compile s!"^{piecesText ps}$" = .error e

def Piece.token : Piece → Token
  | .anySequence => .anySequence
  | .anyChar => .anyChar
  | .quoted c | .escaped c => .char c

theorem pieces_tokens (cs : List Char) : (pieces cs).map Piece.token = tokens cs := by
  fun_induction pieces cs with
  | case1 => rfl
  | case2 cs ih => exact congrArg _ ih
  | case3 cs ih => exact congrArg _ ih
  | case4 next cs ih => exact congrArg _ ih
  | case5 => rfl
  | case6 c cs any one escape last ih =>
    rw [tokens, List.map_cons, ih]
    · rfl
    all_goals assumption

theorem piece_words (p : Piece) : p.words = p.token.words (· ≠ '\n') := by
  cases p with
  | anySequence => exact kstar_single _
  | _ => rfl

theorem words_match (ps : List Piece) (w : List Char) :
    w ∈ (ps.map Piece.words).prod ↔ Matches (· ≠ '\n') (ps.map Piece.token) w := by
  rw [Matches, List.map_map]
  refine iff_of_eq (congrArg (fun l : List (Language Char) => w ∈ l.prod) ?_)
  exact List.map_congr_left fun p _ => piece_words p

end Pieces

section Breaks

def Token.breaks (t : Token) : Nat := if t = .char '\n' then 1 else 0

theorem breaks_char (c : Char) : [c].count '\n' = Token.breaks (.char c) := by
  rw [List.count_singleton, Token.breaks]
  by_cases line : c = '\n'
  · rw [line]
    rfl
  · rw [if_neg fun same => line (beq_iff_eq.mp same), if_neg fun same => line (Token.char.inj same)]

theorem least_breaks (t : Token) : ∀ w ∈ t.words fun _ => True, t.breaks ≤ w.count '\n' := by
  intro w mem
  cases t with
  | anySequence => exact Nat.zero_le _
  | anyChar => exact Nat.zero_le _
  | char c =>
    obtain rfl : w = [c] := mem
    exact (breaks_char c).ge

theorem narrow_breaks (t : Token) (w : List Char) : w ∈ t.words (· ≠ '\n') ↔
    (w ∈ t.words fun _ => True) ∧ w.count '\n' = t.breaks := by
  have without : (∀ c ∈ w, c ≠ '\n') ↔ w.count '\n' = 0 := by
    rw [List.count_eq_zero]
    exact ⟨fun all mem => all _ mem rfl, fun none c mem same => none (same ▸ mem)⟩
  cases t with
  | anySequence =>
    refine without.trans ⟨fun count => ⟨fun _ _ => trivial, count⟩, fun both => both.2⟩
  | anyChar =>
    constructor
    · rintro ⟨c, other, rfl⟩
      refine ⟨⟨c, trivial, rfl⟩, without.mp fun d mem => ?_⟩
      rw [List.mem_singleton.mp mem]
      exact other
    · rintro ⟨⟨c, _, rfl⟩, count⟩
      exact ⟨c, without.mpr count c List.mem_cons_self, rfl⟩
  | char c =>
    refine ⟨fun mem => ⟨mem, ?_⟩, fun both => both.1⟩
    obtain rfl : w = [c] := mem
    exact breaks_char c

theorem breaks_sum (ts : List Token) : (ts.map Token.breaks).sum = ts.count (.char '\n') := by
  induction ts with
  | nil => rfl
  | cons t ts ih =>
    rw [List.map_cons, List.sum_cons, ih, List.count_cons, Token.breaks, Nat.add_comm]
    simp only [beq_iff_eq]

/-- A text is matched without line breaks for the wildcards exactly if it has no more of them than
    the pattern itself. -/
theorem matches_narrowed (pattern target : String) :
    Matches (· ≠ '\n') (tokens pattern.toList) target.toList ↔
      Likes pattern target ∧ target.toList.count '\n' = literalBreaks pattern := by
  rw [Matches, mem_prod_narrowed least_breaks narrow_breaks, breaks_sum]
  rfl

theorem literalBreaks_le {pattern target : String} (likes : Likes pattern target) :
    literalBreaks pattern ≤ target.toList.count '\n' := by
  rw [literalBreaks, ← breaks_sum]
  exact least_prod least_breaks _ likes

end Breaks

section Law
variable [Regex] {tooBig : String → Prop}

def Right (pattern target : String) : Prop :=
  ∃ value, evalBinary .like (.string target) (.string pattern) = .ok (.boolean value) ∧
    (value = true ↔ Likes pattern target)

/-- Every backslash stands at the end of the pattern or before a character that a regular
    expression may have behind one. -/
def EscapesKept (pattern : String) : Prop :=
  ∀ c, .escaped c ∈ pieces pattern.toList → escapable c = true

def regexOf (pattern : String) : String := s!"^{sqlLikeToRegex pattern.toList}$"

theorem like_eq (pattern target : String) :
    evalBinary .like (.string target) (.string pattern) =
      match Regex.compile (regexOf pattern) with
      | .ok isMatch => .ok (.boolean (isMatch target))
      | .error e => err (.type s!"invalid LIKE pattern: {e}") := rfl

theorem not_right_of_error {pattern target e : String}
    (failed : Regex.compile (regexOf pattern) = .error e) : ¬ Right pattern target := by
  rintro ⟨value, evaluated, _⟩
  rw [like_eq, failed] at evaluated
  cases evaluated

theorem regexOf_pieces (pattern : String) :
    regexOf pattern = s!"^{piecesText (pieces pattern.toList)}$" := by
  rw [regexOf, sqlLikeToRegex_eq]

/-- LIKE is right where the escapes are kept exactly if the expression is not too big and a
    matched text has no line break for a wildcard; with an invalid escape it never is. -/
theorem like_right_iff (documented : Documented tooBig) (pattern target : String) :
    (EscapesKept pattern → (Right pattern target ↔ ¬ tooBig (regexOf pattern) ∧
      ¬ (Likes pattern target ∧ literalBreaks pattern < target.toList.count '\n'))) ∧
    ∀ c, .escaped c ∈ pieces pattern.toList → invalidEscape c = true → ¬ Right pattern target := by
  constructor
  · intro kept
    by_cases big : tooBig (regexOf pattern)
    · refine iff_of_false ?_ fun both => both.1 big
      rw [regexOf_pieces] at big
      obtain ⟨e, failed⟩ := documented.limited _ big
      rw [← regexOf_pieces] at failed
      exact not_right_of_error failed
    · rw [and_iff_right big]
      rw [regexOf_pieces] at big
      obtain ⟨isMatch, compiled, matched⟩ := documented.compiles _ kept big
      rw [← regexOf_pieces] at compiled
      have narrowed : isMatch target = true ↔
          Likes pattern target ∧ target.toList.count '\n' = literalBreaks pattern :=
        (matched target).trans ((words_match _ _).trans
          (pieces_tokens _ ▸ matches_narrowed pattern target))
      have right : Right pattern target ↔ (isMatch target = true ↔ Likes pattern target) := by
        rw [Right, like_eq, compiled]
        constructor
        · rintro ⟨value, evaluated, same⟩
          cases evaluated
          exact same
        · exact fun same => ⟨_, rfl, same⟩
      rw [right, narrowed]
      constructor
      · rintro same ⟨likes, more⟩
        exact more.ne' (same.mpr likes).2
      · intro none
        refine ⟨fun both => both.1, fun likes => ⟨likes, ?_⟩⟩
        exact (not_lt.mp fun more => none ⟨likes, more⟩).antisymm (literalBreaks_le likes)
  · intro c mem invalid
    obtain ⟨e, failed⟩ := documented.rejects _ c mem invalid
    rw [← regexOf_pieces] at failed
    exact not_right_of_error failed

end Law

section Engine

def isMeta (c : Char) : Bool := c ∈ "\\.+*?()|[]\x7b\x7d^$#&-~".toList

def quote (c : Char) : List Char := if isMeta c then ['\\', c] else [c]

def parse : List Char → Option (List Token)
  | [] => none
  | ['$'] => some []
  | '.' :: '*' :: cs => (parse cs).map (.anySequence :: ·)
  | '.' :: cs => (parse cs).map (.anyChar :: ·)
  | '\\' :: c :: cs => if escapable c then (parse cs).map (.char c :: ·) else none
  | c :: cs => if isMeta c then none else (parse cs).map (.char c :: ·)

def compileTokens (text : List Char) : Option (List Token) :=
  match text with
  | '^' :: cs => parse cs
  | _ => none

/-- An engine for the expressions that patterns are compiled to, without the escape letters. -/
@[reducible] def wholeText : Regex where
  compile text :=
    match compileTokens text.toList with
    | some ts => .ok fun target => matchTokens (· != '\n') ts target.toList
    | none => .error "regex parse error"
  escape text := String.ofList (text.toList.flatMap quote)

def Piece.chars : Piece → List Char
  | .anySequence => ['.', '*']
  | .anyChar => ['.']
  | .quoted c => quote c
  | .escaped c => ['\\', c]

def Piece.allowed : Piece → Bool
  | .escaped c => escapable c
  | _ => true

theorem text_chars (p : Piece) : (@Piece.text wholeText p).toList = p.chars := by
  cases p with
  | anySequence => rfl
  | anyChar => rfl
  | quoted c =>
    show (String.ofList ((String.ofList [c]).toList.flatMap quote)).toList = quote c
    rw [String.toList_ofList, String.toList_ofList, List.flatMap_singleton]
  | escaped c => exact String.toList_ofList

theorem piecesText_chars (ps : List Piece) :
    (@piecesText wholeText ps).toList = ps.flatMap Piece.chars := by
  induction ps with
  | nil => rfl
  | cons p ps ih =>
    have split : @piecesText wholeText (p :: ps) =
        @Piece.text wholeText p ++ @piecesText wholeText ps := rfl
    rw [split, String.toList_append, ih, text_chars, List.flatMap_cons]

theorem not_star {c : Char} (plain : isMeta c = false) : c ≠ '*' := by
  rintro rfl
  exact absurd plain (by decide)

theorem chars_head (ps : List Piece) :
    ∃ d ds, ps.flatMap Piece.chars ++ ['$'] = d :: ds ∧ d ≠ '*' := by
  cases ps with
  | nil => exact ⟨_, _, rfl, by decide⟩
  | cons p ps =>
    rw [List.flatMap_cons, List.append_assoc]
    cases p with
    | anySequence => exact ⟨_, _, rfl, by decide⟩
    | anyChar => exact ⟨_, _, rfl, by decide⟩
    | escaped c => exact ⟨_, _, rfl, by decide⟩
    | quoted c =>
      rw [Piece.chars, quote]
      split
      · exact ⟨_, _, rfl, by decide⟩
      · rename_i plain
        exact ⟨_, _, rfl, not_star (Bool.not_eq_true _ ▸ plain)⟩

theorem meta_escapable {c : Char} (is : isMeta c = true) : escapable c = true := by
  have all : ("\\.+*?()|[]\x7b\x7d^$#&-~".toList.all escapable) = true := by decide
  exact List.all_eq_true.mp all c (of_decide_eq_true is)

theorem parse_plain {c : Char} (plain : isMeta c = false) (d : Char) (ds : List Char) :
    parse (c :: d :: ds) = (parse (d :: ds)).map (.char c :: ·) := by
  have dot : c ≠ '.' := by
    rintro rfl
    exact absurd plain (by decide)
  have back : c ≠ '\\' := by
    rintro rfl
    exact absurd plain (by decide)
  rw [parse]
  · rw [plain]
    rfl
  · intro _ last
    cases last
  · exact fun _ same => absurd same dot
  · exact dot
  · exact fun _ _ same => absurd same back

theorem parse_piece (p : Piece) {d : Char} {ds : List Char} (other : d ≠ '*') :
    parse (p.chars ++ d :: ds) =
      if p.allowed then (parse (d :: ds)).map (p.token :: ·) else none := by
  cases p with
  | anySequence => rfl
  | anyChar =>
    show parse ('.' :: d :: ds) = (parse (d :: ds)).map (.anyChar :: ·)
    rw [parse]
    intro cs starred
    exact other (List.cons.inj starred).1
  | escaped c => rfl
  | quoted c =>
    rw [Piece.chars, quote]
    cases is : isMeta c with
    | true =>
      show (if escapable c then _ else none) = _
      rw [meta_escapable is]
      rfl
    | false => exact parse_plain is d ds

theorem parse_pieces {ps : List Piece} (kept : ∀ c, .escaped c ∈ ps → escapable c = true) :
    parse (ps.flatMap Piece.chars ++ ['$']) = some (ps.map Piece.token) := by
  induction ps with
  | nil => rfl
  | cons p ps ih =>
    have allowed : p.allowed = true := by
      cases p with
      | escaped c => exact kept c List.mem_cons_self
      | _ => rfl
    have rest := ih fun c mem => kept c (List.mem_cons_of_mem p mem)
    obtain ⟨d, ds, here, other⟩ := chars_head ps
    rw [here] at rest
    rw [List.flatMap_cons, List.append_assoc, here, parse_piece p other, allowed, rest]
    rfl

theorem parse_rejects {ps : List Piece} {c : Char} (mem : .escaped c ∈ ps)
    (refused : escapable c = false) : parse (ps.flatMap Piece.chars ++ ['$']) = none := by
  induction ps with
  | nil => cases mem
  | cons p ps ih =>
    obtain ⟨d, ds, here, other⟩ := chars_head ps
    rw [List.flatMap_cons, List.append_assoc, here, parse_piece p other]
    rcases List.mem_cons.mp mem with rfl | mem'
    · rw [Piece.allowed, refused]
      rfl
    · have rest := ih mem'
      rw [here] at rest
      rw [rest]
      split <;> rfl

theorem compileTokens_pieces (ps : List Piece) :
    compileTokens (s!"^{@piecesText wholeText ps}$").toList =
      parse (ps.flatMap Piece.chars ++ ['$']) := by
  have text : (s!"^{@piecesText wholeText ps}$").toList =
      '^' :: (ps.flatMap Piece.chars ++ ['$']) := by
    show ("^" ++ @piecesText wholeText ps ++ "$").toList = _
    rw [String.toList_append, String.toList_append, piecesText_chars]
    rfl
  rw [text]
  rfl

theorem compile_eq (text : String) : @Regex.compile wholeText text =
    match compileTokens text.toList with
    | some ts => .ok fun target => matchTokens (· != '\n') ts target.toList
    | none => .error "regex parse error" := rfl

theorem wholeText_documented : @Documented wholeText fun _ => False := by
  refine @Documented.mk wholeText _ (fun ps kept _ => ?_) (fun _ big => big.elim)
    fun ps c mem invalid => ?_
  · refine ⟨fun target => matchTokens (· != '\n') (ps.map Piece.token) target.toList, ?_, ?_⟩
    · rw [compile_eq, compileTokens_pieces, parse_pieces kept]
    · intro target
      have passing : (fun c : Char => (c != '\n') = true) = (· ≠ '\n') :=
        funext fun c => propext bne_iff_ne
      rw [matchTokens_iff, words_match, passing]
  · have refused : escapable c = false := by
      rw [invalidEscape, Bool.and_eq_true, Bool.not_eq_true'] at invalid
      exact invalid.1
    refine ⟨"regex parse error", ?_⟩
    rw [compile_eq, compileTokens_pieces, parse_rejects mem refused]

end Engine

section Witness

/-- Names that start with A. -/
theorem ada_liked :
    (EscapesKept "A%" → (@Right wholeText "A%" "Ada" ↔ ¬ False ∧
      ¬ (Likes "A%" "Ada" ∧ literalBreaks "A%" < "Ada".toList.count '\n'))) ∧
    ∀ c, .escaped c ∈ pieces "A%".toList → invalidEscape c = true →
      ¬ @Right wholeText "A%" "Ada" :=
  @like_right_iff wholeText (fun _ => False) wholeText_documented "A%" "Ada"

/-- A text of two lines is not found by its first letter. -/
theorem second_line_missed : ¬ ∀ (engine : Regex) (tooBig : String → Prop),
    @Documented engine tooBig → ∀ pattern target, @Right engine pattern target := by
  intro claim
  obtain ⟨value, evaluated, same⟩ :=
    claim wholeText (fun _ => False) wholeText_documented "a%" "a\nb"
  have missed : @evalBinary wholeText .like (.string "a\nb") (.string "a%") =
      .ok (.boolean false) := by rfl
  rw [missed] at evaluated
  cases evaluated
  have likes : Likes "a%" "a\nb" := by
    have matched := (matchTokens_iff (fun _ => true) (tokens "a%".toList) "a\nb".toList).mp
      (by decide)
    simpa only [Likes] using matched
  exact Bool.false_ne_true (same.mpr likes)

end Witness

end RSparkLikePatterns
