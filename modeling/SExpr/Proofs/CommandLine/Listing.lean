import SExpr.Proofs.CommandLine.Run
import SExpr.Proofs.Number.Positional
import SExpr.Proofs.Text.Quoted

/-!
# Listings of tokens

A listing has a line for each token, with the label of its kind and its quoted text in fields of
their own. The quoted texts tell the texts, and these make up the source, so no two sources have the
same listing.
-/
namespace SExpr

open Text

variable {text text' path : Text} {tokens tokens' : List Token}

/-! ## The fields of a line -/

theorem isLine_of_isPrintable {t : Text} (h : ∀ c ∈ t, isPrintable c) : t.IsLine ∧ '\t' ∉ t := by
  have hne : ∀ control, isPrintable control = false → control ∉ t := by
    intro control hcontrol hmem
    rw [h control hmem] at hcontrol
    cases hcontrol
  refine ⟨?_, hne '\t' (by decide)⟩
  intro c hc
  constructor
  · rintro rfl
    exact hne '\r' (by decide) hc
  · rintro rfl
    exact hne '\n' (by decide) hc

theorem isPrintable_of_mem_ofNat {c : Char} (n : Nat) (hc : c ∈ Text.ofNat n) : isPrintable c := by
  obtain ⟨hlow, hhigh⟩ := Char.isDigit_iff_toNat.mp (Text.isDigit_ofNat n c hc)
  have hzero : '0'.toNat = 0x30 := rfl
  have hnine : '9'.toNat = 0x39 := rfl
  rw [isPrintable_of_lt (by omega)]
  exact decide_eq_true (by omega)

theorem isPrintable_of_mem_render {c : Char} (p : Position) (hc : c ∈ p.render) :
    isPrintable c := by
  rcases List.mem_append.mp hc with hc | hc
  · exact isPrintable_of_mem_ofNat _ hc
  · rcases List.mem_cons.mp hc with rfl | hc
    · decide
    · exact isPrintable_of_mem_ofNat _ hc

theorem isPrintable_of_mem_label (k : Kind) : ∀ c ∈ k.label, isPrintable c := by
  apply List.all_eq_true.mp
  rcases k with (_ | _) | (_ | _) | _ | _ | (_ | _ | _ | _) <;> decide

namespace Token

def fields (token : Token) : List Text :=
  [token.position.render, token.kind.label, token.text.quoted]

theorem isPrintable_of_mem_fields (token : Token) :
    ∀ t ∈ token.fields, ∀ c ∈ t, isPrintable c := by
  simp only [fields, List.forall_mem_cons, List.not_mem_nil, false_implies, implies_true, and_true]
  exact ⟨fun _ => isPrintable_of_mem_render token.position, isPrintable_of_mem_label token.kind,
    fun _ => isPrintable_of_mem_quoted⟩

theorem listing_eq_intercalate (token : Token) :
    token.listing = ['\t'].intercalate token.fields := by
  simp [listing, fields, List.intercalate_cons_cons]

theorem splitOn_listing (token : Token) : token.listing.splitOn '\t' = token.fields := by
  rw [listing_eq_intercalate]
  apply List.splitOn_intercalate
  · intro t ht
    exact (isLine_of_isPrintable (token.isPrintable_of_mem_fields t ht)).2
  · simp [fields]

theorem isLine_listing (token : Token) : token.listing.IsLine := by
  have hfields : ∀ t ∈ token.fields, t.IsLine := fun t ht =>
    (isLine_of_isPrintable (token.isPrintable_of_mem_fields t ht)).1
  simp only [fields, List.forall_mem_cons] at hfields
  obtain ⟨hplace, hlabel, hquoted, -⟩ := hfields
  simp only [listing, isLine_append, isLine_cons]
  exact ⟨⟨hplace, by decide, hlabel⟩, by decide, hquoted⟩

theorem text_eq_of_listing_eq {token token' : Token} (h : token.listing = token'.listing) :
    token.text = token'.text := by
  have hfields : token.fields = token'.fields := by
    rw [← splitOn_listing, ← splitOn_listing, h]
  simp only [fields, List.cons.injEq] at hfields
  exact quoted_injective hfields.2.2.1

theorem map_text_eq_of_map_listing_eq (h : tokens.map listing = tokens'.map listing) :
    tokens.map Token.text = tokens'.map Token.text := by
  induction tokens generalizing tokens' with
  | nil =>
    cases tokens' with
    | nil => rfl
    | cons token' tokens' => cases h
  | cons token tokens ih =>
    cases tokens' with
    | nil => cases h
    | cons token' tokens' =>
      obtain ⟨htoken, htokens⟩ := List.cons.inj h
      rw [List.map_cons, List.map_cons, text_eq_of_listing_eq htoken, ih htokens]

end Token

def isBlankLine (line : Text) : Bool :=
  (line.splitOn '\t')[1]? = some Kind.whitespace.label ||
    (line.splitOn '\t')[1]? = some Kind.lineComment.label

theorem isBlankLine_listing (token : Token) : isBlankLine token.listing = token.kind.isBlank := by
  have hlabel : ∀ k : Kind,
      (decide (k.label = Kind.whitespace.label) || decide (k.label = Kind.lineComment.label)) =
        k.isBlank := by
    intro k
    rcases k with (_ | _) | (_ | _) | _ | _ | (_ | _ | _ | _) <;> decide
  rw [isBlankLine, Token.splitOn_listing, ← hlabel]
  simp [Token.fields]

theorem map_listing_withoutBlanks (tokens : List Token) :
    (withoutBlanks tokens).map Token.listing =
      (tokens.map Token.listing).filter (!isBlankLine ·) := by
  rw [withoutBlanks, List.filter_map]
  congr 1
  exact List.filter_congr fun token _ => congrArg _ (isBlankLine_listing token).symm

/-- No two texts have the same listing. -/
theorem listing_injective
    (h : (tokenize text).map Token.listing = (tokenize text').map Token.listing) :
    text = text' := by
  have htexts := congrArg List.flatten (Token.map_text_eq_of_map_listing_eq h)
  rwa [← List.flatMap_def, ← List.flatMap_def, flatMap_text_tokenize,
    flatMap_text_tokenize] at htexts

namespace CommandLine

variable {disk : Disk} {input bytes : List UInt8}

/-! ## Runs that list tokens -/

theorem gather_tokens (hsupplies : Supplies disk input path bytes)
    (hdecode : decodeSource bytes = .ok text) (trivia : Bool) :
    gather { input := path, tokens := true, trivia } disk input =
      (.ok (((tokenize text trivia).map Token.listing).map .ok), []) := by
  unfold gather Session.load
  dsimp only
  rw [if_pos rfl, loadSource_of_decode hsupplies hdecode]
  dsimp only
  rw [Session.readTokens]
  rfl

theorem respond_tokens (hpath : classify path = .ok .operand)
    (hsupplies : Supplies disk input path bytes) (hdecode : decodeSource bytes = .ok text) :
    respond [path, Flag.tokens.long] disk input =
      { ending := .returned 0,
        output := lines (((tokenize text).map Token.listing).filter (!isBlankLine ·)) } := by
  have hrun : respond [path, Flag.tokens.long] disk input =
      run { input := path, tokens := true } disk input :=
    respond_flags hpath [.tokens] (by decide)
  rw [hrun, run_of_gather (gather_tokens hsupplies hdecode false), ← map_listing_withoutBlanks]
  rfl

theorem respond_tokens_trivia (hpath : classify path = .ok .operand)
    (hsupplies : Supplies disk input path bytes) (hdecode : decodeSource bytes = .ok text) :
    respond [path, Flag.tokens.long, Flag.trivia.long] disk input =
      { ending := .returned 0, output := lines ((tokenize text).map Token.listing) } := by
  have hrun : respond [path, Flag.tokens.long, Flag.trivia.long] disk input =
      run { input := path, tokens := true, trivia := true } disk input :=
    respond_flags hpath [.tokens, .trivia] (by decide)
  rw [hrun, run_of_gather (gather_tokens hsupplies hdecode true)]

/-- Listing the tokens of a source that can be decoded succeeds, whether or not it can be read.
There is a line for each token, and without the flag for blanks just the lines of blanks are left
out. Different texts have different listings. -/
theorem respond_listing (hpath : classify path = .ok .operand)
    (hsupplies : Supplies disk input path bytes) (hdecode : decodeSource bytes = .ok text) :
    respond [path, Flag.tokens.long, Flag.trivia.long] disk input =
      { ending := .returned 0, output := lines ((tokenize text).map Token.listing) } ∧
    (∀ token ∈ tokenize text, token.listing.IsLine) ∧
    (∀ t : Text, t.quoted.IsLine ∧ '\t' ∉ t.quoted) ∧
    respond [path, Flag.tokens.long] disk input =
      { ending := .returned 0,
        output := lines (((tokenize text).map Token.listing).filter (!isBlankLine ·)) } ∧
    ∀ path' disk' input' bytes' text', classify path' = .ok .operand →
      Supplies disk' input' path' bytes' → decodeSource bytes' = .ok text' → text ≠ text' →
      (respond [path, Flag.tokens.long, Flag.trivia.long] disk input).output ≠
        (respond [path', Flag.tokens.long, Flag.trivia.long] disk' input').output := by
  refine ⟨respond_tokens_trivia hpath hsupplies hdecode, fun token _ => token.isLine_listing,
    fun t => isLine_of_isPrintable fun _ => isPrintable_of_mem_quoted,
    respond_tokens hpath hsupplies hdecode, ?_⟩
  intro path' disk' input' bytes' text' hpath' hsupplies' hdecode' hne houtput
  rw [respond_tokens_trivia hpath hsupplies hdecode,
    respond_tokens_trivia hpath' hsupplies' hdecode'] at houtput
  have hlines : ∀ source, ∀ line ∈ (tokenize source).map Token.listing, line.IsLine := by
    intro source line hline
    obtain ⟨token, -, rfl⟩ := List.mem_map.mp hline
    exact token.isLine_listing
  exact hne (listing_injective (eq_of_lines_eq (hlines text) (hlines text') houtput))

/-- A list that is never closed, and a tab or a space in it. -/
theorem respond_listing_unclosed :
    let disk (source : Text) : Disk := fun _ => .ok (Utf8.encode source)
    respond [['f'], Flag.tokens.long, Flag.trivia.long] (disk "(\t".toList) [] =
      { ending := .returned 0,
        output := "1:1\tLPAREN\t'('\n1:2\tWHITESPACE\t'\\t'\n".toList } ∧
    respond [['f'], Flag.tokens.long] (disk "(\t".toList) [] =
      { ending := .returned 0, output := "1:1\tLPAREN\t'('\n".toList } ∧
    (respond [['f'], Flag.tokens.long, Flag.trivia.long] (disk "(\t".toList) []).output ≠
      (respond [['f'], Flag.tokens.long, Flag.trivia.long] (disk "( ".toList) []).output := by
  intro disk
  have hpath : classify ['f'] = .ok .operand := rfl
  have hsupplies : ∀ source, Supplies (disk source) [] ['f'] (Utf8.encode source) :=
    fun source => supplies_file (by decide) (by decide) rfl
  have hcut : Lexeme.Cut "(\t".toList [(.opener .round, ['(']), (.whitespace, ['\t'])] := by
    have htab : Lexeme.IsLongest .whitespace ['\t'] [] :=
      Lexeme.isLongest_whitespace_iff.mpr ⟨Lexeme.isRun_singleton.mpr rfl, by simp⟩
    have hopener : Lexeme.IsLongest (.opener .round) ['('] ['\t'] := Lexeme.isLongest_single rfl
    exact hopener.cut (htab.cut .nil)
  have hdecode : decodeSource (Utf8.encode "(\t".toList) = .ok "(\t".toList :=
    decodeSource_encode _
  have hlisting := respond_listing hpath (hsupplies "(\t".toList) hdecode
  rw [tokenize_eq hcut] at hlisting
  obtain ⟨hall, -, -, hsome, hdiffers⟩ := hlisting
  refine ⟨hall, hsome, ?_⟩
  exact hdiffers ['f'] (disk "( ".toList) [] _ _ hpath (hsupplies _) (decodeSource_encode _)
    (by decide)

end CommandLine

end SExpr
