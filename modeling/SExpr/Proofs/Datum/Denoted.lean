import SExpr.Proofs.Datum.Equality
import SExpr.Proofs.Datum.ReadBack

/-!
# What source texts denote

The data that texts denote are the readable ones. The values of forms are readable if the lexemes
are such as texts have. Conversely, every readable datum is the value of a form, with a numeral too
large for 64 bits where the datum holds an infinite number, and the lexemes of a form make up a text
when a space is put before each of them.
-/
namespace SExpr

variable {d car cdr : Datum} {k : Kind} {t filename : Text} {L L' : List (Kind × Text)}

/-- Lexemes that texts have besides blanks, without a count that is too long. -/
def IsSpelling (L : List (Kind × Text)) : Prop :=
  ∀ l ∈ L, Lexeme.Is l.1 l.2 ∧ l.1.isBlank = false ∧
    (l.1 = .ellipsis → l.2.countP Char.isDigit ≤ CountError.digitLimit)

@[simp] theorem isSpelling_nil : IsSpelling [] := by
  simp [IsSpelling]

@[simp] theorem isSpelling_cons : IsSpelling ((k, t) :: L) ↔
    (Lexeme.Is k t ∧ k.isBlank = false ∧
      (k = .ellipsis → t.countP Char.isDigit ≤ CountError.digitLimit)) ∧ IsSpelling L :=
  List.forall_mem_cons

@[simp] theorem isSpelling_append : IsSpelling (L ++ L') ↔ IsSpelling L ∧ IsSpelling L' :=
  List.forall_mem_append

theorem isSpelling_tokenize {source : Text} {data : List Datum}
    (h : parse source filename = .ok data) :
    IsSpelling ((tokenize source false).map Token.lexeme) := by
  intro l hl
  obtain ⟨token, htoken, rfl⟩ := List.mem_map.mp hl
  obtain ⟨his, hblank⟩ := is_of_mem_tokenize htoken
  exact ⟨his, hblank, (known_of_parse h).2 token htoken⟩

theorem IsSpelling.hasLexemes (h : IsSpelling L) : HasLexemes (spaced (L.map Prod.snd)) L := by
  induction L with
  | nil => exact hasLexemes_nil
  | cons l L ih =>
    obtain ⟨k, t⟩ := l
    obtain ⟨⟨his, hblank, hcount⟩, hL⟩ := isSpelling_cons.mp h
    exact ((ih hL).cons his hblank (delimited_parts _) hcount).space

/-! ## Counts -/

theorem ofDigitChars_lt {digits : Text} (h : ∀ c ∈ digits, c.isDigit = true) (n : Nat) :
    Nat.ofDigitChars 10 digits n < (n + 1) * Nat.pow 10 digits.length := by
  induction digits generalizing n with
  | nil => simp
  | cons c digits ih =>
    obtain ⟨hc, hdigits⟩ := List.forall_mem_cons.mp h
    have hdigit : c.toNat - '0'.toNat ≤ 9 := by
      have hle := (Char.isDigit_iff_toNat.mp hc).2
      have hnine : '9'.toNat = '0'.toNat + 9 := rfl
      omega
    rw [Nat.ofDigitChars_cons, List.length_cons]
    have hpow : (n + 1) * Nat.pow 10 (digits.length + 1) =
        (10 * n + 10) * Nat.pow 10 digits.length := by
      have hsucc : Nat.pow 10 (digits.length + 1) = Nat.pow 10 digits.length * 10 := rfl
      rw [hsucc]
      ring
    rw [hpow]
    exact (ih hdigits _).trans_le (Nat.mul_le_mul_right _ (by omega))

theorem decimalNumber_lt {digits : Text} {places : Nat} (h : ∀ c ∈ digits, c.isDigit = true)
    (hplaces : digits.length ≤ places) : Text.decimalNumber digits < Nat.pow 10 places := by
  have hlt := ofDigitChars_lt h 0
  rw [Nat.zero_add, Nat.one_mul, ← decimalNumber_eq h] at hlt
  exact hlt.trans_le (Nat.pow_le_pow_right (by decide) hplaces)

theorem isRepeatCount_of_isEllipsis (h : Lexeme.IsEllipsis t)
    (hcount : t.countP Char.isDigit ≤ CountError.digitLimit) :
    Datum.IsRepeatCount (Text.decimalNumber (t.dropWhile (· = '.'))) := by
  obtain ⟨hdigits, hlength⟩ := h.digits_dropWhile
  rw [← hlength] at hcount
  refine ⟨Int.natCast_nonneg _, ?_⟩
  rw [Int.toNat_natCast]
  exact decimalNumber_lt hdigits hcount

/-! ## Values of forms are readable -/

theorem Datum.readable_cons_of (hcar : car.Readable) (hcdr : cdr.ReadableTail) :
    (cons car cdr).Readable := by
  rcases hcdr with hcdr | ⟨n, rfl, hn⟩
  · cases cdr with
    | ellipsis n => exact hcdr.elim
    | _ => exact ⟨hcar, hcdr⟩
  · exact ⟨hcar, hn⟩

theorem isSymbolName_symbol (a : Abbreviation) : Lexeme.IsSymbolName a.symbol := by
  cases a <;>
    exact Lexeme.isSymbolName_cons.mpr
      ⟨⟨by decide, List.all_eq_true.mp (by decide)⟩, fun h => absurd h.1 (by decide)⟩

mutual

/-- A form denotes a readable datum if its lexemes are such as texts have. -/
theorem Form.readable_value (f : Form) (h : IsSpelling f.lexemes) : f.value.Readable := by
  match f with
  | .number t => exact Binary64.ofDecimal_ne_nan _
  | .boolean t => trivial
  | .symbol t => exact (isSpelling_cons.mp h).1.1
  | .abbreviated a t f =>
    have hf := f.readable_value (isSpelling_cons.mp h).2
    exact Datum.readable_cons_of (isSymbolName_symbol a)
      (Or.inl (Datum.readable_cons_of hf (Or.inl trivial)))
  | .empty b t t' => trivial
  | .list b t first rest =>
    obtain ⟨hfirst, hrest⟩ := isSpelling_append.mp (isSpelling_cons.mp h).2
    exact Datum.readable_cons_of (first.readable_value hfirst) (rest.readable_value b hrest)

theorem FormTail.readable_value (r : FormTail) (b : Bracket) (h : IsSpelling (r.lexemes b)) :
    r.value.ReadableTail := by
  match r with
  | .close t => exact Or.inl trivial
  | .item f r =>
    obtain ⟨hf, hr⟩ := isSpelling_append.mp h
    exact Or.inl (Datum.readable_cons_of (f.readable_value hf) (r.readable_value b hr))
  | .dotted t f t' =>
    obtain ⟨hf, -⟩ := isSpelling_append.mp (isSpelling_cons.mp h).2
    exact Or.inl (f.readable_value hf)
  | .repeated t t' =>
    obtain ⟨his, -, hcount⟩ := (isSpelling_cons.mp h).1
    exact Or.inr ⟨_, rfl, isRepeatCount_of_isEllipsis his (hcount rfl)⟩

end

theorem readable_of_parse {source : Text} {data : List Datum}
    (h : parse source filename = .ok data) : ∀ d ∈ data, d.Readable := by
  have hspelling := isSpelling_tokenize h
  obtain ⟨forms, hforms, rfl⟩ := forms_of_parse h
  rw [hforms] at hspelling
  intro d hd
  obtain ⟨f, hf, rfl⟩ := List.mem_map.mp hd
  exact f.readable_value fun l hl => hspelling l (List.mem_flatMap.mpr ⟨f, hf, hl⟩)

/-! ## Readable data are values of forms -/

theorem Binary64.ofDecimal_overflow (negative : Bool) :
    ofDecimal ⟨negative, 1, 309⟩ = infinite negative := by
  cases negative <;> decide +kernel

theorem Binary64.exists_ofDecimal {x : Binary64} (h : x ≠ nan) : ∃ d, ofDecimal d = x := by
  cases x with
  | finite value => exact ⟨_, value.ofDecimal_toDecimal⟩
  | infinite negative => exact ⟨_, ofDecimal_overflow negative⟩
  | nan => exact absurd rfl h

/-- The datum is the value of a form with lexemes such as texts have. -/
def HasForm (d : Datum) : Prop :=
  ∃ f : Form, f.value = d ∧ IsSpelling f.lexemes

def HasFormTail (d : Datum) : Prop :=
  ∃ r : FormTail, r.value = d ∧ IsSpelling (r.lexemes .round)

theorem isSpelling_closer : IsSpelling [(.closer .round, [')'])] :=
  isSpelling_cons.mpr ⟨⟨rfl, rfl, by simp⟩, isSpelling_nil⟩

theorem isSpelling_opener_cons : IsSpelling ((.opener .round, ['(']) :: L) ↔ IsSpelling L := by
  rw [isSpelling_cons]
  exact and_iff_right ⟨rfl, rfl, by simp⟩

theorem hasForm_number {x : Binary64} (h : x ≠ .nan) : HasForm (.number x) := by
  obtain ⟨decimal, rfl⟩ := Binary64.exists_ofDecimal h
  refine ⟨.number decimal.positional, ?_, ?_⟩
  · rw [Form.value, Decimal.ofDecimal_ofPositional]
  · exact isSpelling_cons.mpr ⟨⟨decimal.isNumeral_positional, rfl, by simp⟩, isSpelling_nil⟩

theorem hasForm_boolean (b : Bool) : HasForm (.boolean b) := by
  refine ⟨.boolean (Datum.booleanSource b), ?_, ?_⟩
  · cases b <;> rfl
  · refine isSpelling_cons.mpr ⟨⟨?_, rfl, by simp⟩, isSpelling_nil⟩
    cases b
    · exact Or.inr rfl
    · exact Or.inl rfl

theorem hasForm_symbol {name : Text} (h : Lexeme.IsSymbolName name) : HasForm (.symbol name) :=
  ⟨.symbol name, rfl, isSpelling_cons.mpr ⟨⟨h, rfl, by simp⟩, isSpelling_nil⟩⟩

theorem hasForm_nil : HasForm .nil :=
  ⟨.empty .round ['('] [')'], rfl, isSpelling_opener_cons.mpr isSpelling_closer⟩

theorem hasForm_cons (hcar : HasForm car) (hcdr : HasFormTail cdr) : HasForm (.cons car cdr) := by
  obtain ⟨f, rfl, hf⟩ := hcar
  obtain ⟨r, rfl, hr⟩ := hcdr
  refine ⟨.list .round ['('] f r, rfl, ?_⟩
  exact isSpelling_opener_cons.mpr (isSpelling_append.mpr ⟨hf, hr⟩)

theorem hasFormTail_of_hasForm (h : HasForm d) : HasFormTail d := by
  obtain ⟨f, rfl, hf⟩ := h
  refine ⟨.dotted ['.'] f [')'], rfl, isSpelling_cons.mpr ⟨⟨rfl, rfl, by simp⟩, ?_⟩⟩
  exact isSpelling_append.mpr ⟨hf, isSpelling_closer⟩

theorem hasFormTail_ellipsis {n : Int} (h : Datum.IsRepeatCount n) :
    HasFormTail (.ellipsis n) := by
  obtain ⟨hnonneg, hlt⟩ := h
  obtain ⟨m, rfl⟩ := Int.eq_ofNat_of_zero_le hnonneg
  obtain ⟨his, hvalue, hcount⟩ := ellipsisSource_spec m
  refine ⟨.repeated (Datum.ellipsisSource m) [')'], ?_, ?_⟩
  · rw [FormTail.value, hvalue]
  · refine isSpelling_cons.mpr ⟨⟨his, rfl, fun _ => ?_⟩, isSpelling_closer⟩
    exact hcount.trans ((length_ofNat_le_iff (by decide)).mpr hlt)

theorem hasFormTail_of_readableTail (hform : d.Readable → HasForm d) (h : d.ReadableTail) :
    HasFormTail d := by
  rcases h with h | ⟨n, rfl, hn⟩
  · exact hasFormTail_of_hasForm (hform h)
  · exact hasFormTail_ellipsis hn

/-- Every readable datum has a form, with its lists in dotted notation. -/
theorem hasForm_of_readable (h : d.Readable) : HasForm d := by
  induction d with
  | number x => exact hasForm_number h
  | boolean b => exact hasForm_boolean b
  | symbol name => exact hasForm_symbol h
  | nil => exact hasForm_nil
  | cons car cdr ihcar ihcdr =>
    obtain ⟨hcar, hcdr⟩ := Datum.readable_cons h
    exact hasForm_cons (ihcar hcar) (hasFormTail_of_readableTail ihcdr hcdr)
  | ellipsis n => exact h.elim

theorem exists_parse_of_readable (h : d.Readable) :
    ∃ source, ∀ filename, parse source filename = .ok [d] := by
  obtain ⟨f, rfl, hf⟩ := hasForm_of_readable h
  have hlexemes : HasLexemes (spaced (f.lexemes.map Prod.snd)) ([f].flatMap Form.lexemes) := by
    rw [List.flatMap_singleton]
    exact hf.hasLexemes
  exact ⟨_, hlexemes.parse⟩

/-- The readable data are just those that are read from some text, and each of them is all that is
read from some text. -/
theorem readable_iff_parse (d : Datum) :
    (d.Readable ↔ ∃ source filename data, parse source filename = .ok data ∧ d ∈ data) ∧
      (d.Readable ↔ ∃ source, ∀ filename, parse source filename = .ok [d]) := by
  refine ⟨⟨fun h => ?_, fun h => ?_⟩, ⟨exists_parse_of_readable, fun h => ?_⟩⟩
  · obtain ⟨source, hsource⟩ := exists_parse_of_readable h
    exact ⟨source, [], [d], hsource [], List.mem_singleton_self d⟩
  · obtain ⟨source, filename, data, hdata, hd⟩ := h
    exact readable_of_parse hdata d hd
  · obtain ⟨source, hsource⟩ := h
    exact readable_of_parse (hsource []) d (List.mem_singleton_self d)

end SExpr
