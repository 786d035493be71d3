import Mathlib.Data.List.Basic
import SExpr.Text.Quoted

/-!
# Quoted texts can be read back

Every escape tells at its front how far it reaches, so the characters of a text are found again one
after the other, and no two texts are quoted alike. All characters of a quoted text are printable.
-/
namespace SExpr.Text

variable {c mark : Char} {s t rest rest' : Text} {n width : Nat}

/-! ## Hexadecimal digits -/

def hexDigitValue (c : Char) : Nat :=
  "0123456789abcdef".toList.idxOf c

def hexValue (digits : Text) : Nat :=
  digits.foldl (fun n c => 16 * n + hexDigitValue c) 0

theorem hexDigit_spec : ∀ d < 16, hexDigitValue d.digitChar = d ∧ isPrintable d.digitChar := by
  decide

theorem toDigits_spec (n : Nat) :
    hexValue (Nat.toDigits 16 n) = n ∧ ∀ c ∈ Nat.toDigits 16 n, isPrintable c := by
  induction n using Nat.strongRecOn with
  | ind n ih =>
    by_cases h : n < 16
    · obtain ⟨hvalue, hprintable⟩ := hexDigit_spec n h
      rw [Nat.toDigits_of_lt_base h]
      refine ⟨?_, List.forall_mem_singleton.mpr hprintable⟩
      simp [hexValue, hvalue]
    · obtain ⟨hvalue, hprintable⟩ := ih (n / 16) (by omega)
      obtain ⟨hlast, hlastPrintable⟩ := hexDigit_spec (n % 16) (by omega)
      rw [Nat.toDigits_of_base_le (by decide) (by omega)]
      refine ⟨?_, ?_⟩
      · rw [hexValue, List.foldl_append]
        rw [hexValue] at hvalue
        rw [hvalue, List.foldl_cons, List.foldl_nil, hlast]
        omega
      · rw [List.forall_mem_append, List.forall_mem_singleton]
        exact ⟨hprintable, hlastPrintable⟩

theorem hexValue_hex (width n : Nat) : hexValue (hex width n) = n := by
  have hzeros : ∀ places, (List.replicate places '0').foldl
      (fun n c => 16 * n + hexDigitValue c) 0 = 0 := by
    intro places
    induction places with
    | zero => rfl
    | succ places ih => exact ih
  rw [hexValue, hex, List.leftpad, List.foldl_append, hzeros]
  exact (toDigits_spec n).1

theorem length_hex (hwidth : 0 < width) (h : n < Nat.pow 16 width) :
    (hex width n).length = width := by
  have hlength : (Nat.toDigits 16 n).length ≤ width :=
    (Nat.length_toDigits_le_iff (by decide) hwidth).mpr h
  rw [hex, List.length_leftpad]
  omega

theorem isPrintable_of_mem_hex (hc : c ∈ hex width n) : isPrintable c := by
  rw [hex, List.leftpad] at hc
  rcases List.mem_append.mp hc with hc | hc
  · rw [(List.mem_replicate.mp hc).2]
    decide
  · exact (toDigits_spec n).2 c hc

/-! ## Escapes -/

/-- The character with the code point in the first `width` digits of a text, and what follows. -/
def codePoint (width : Nat) (t : Text) : Char × Text :=
  (Char.ofNat (hexValue (t.take width)), t.drop width)

/-- The first character of an escaped text, and what follows its escape. -/
def unescape : Text → Option (Char × Text)
  | '\\' :: 'n' :: rest => some ('\n', rest)
  | '\\' :: 'r' :: rest => some ('\r', rest)
  | '\\' :: 't' :: rest => some ('\t', rest)
  | '\\' :: 'x' :: rest => some (codePoint 2 rest)
  | '\\' :: 'u' :: rest => some (codePoint 4 rest)
  | '\\' :: 'U' :: rest => some (codePoint 8 rest)
  | '\\' :: c :: rest => some (c, rest)
  | c :: rest => some (c, rest)
  | [] => none

theorem codePoint_hex (hwidth : 0 < width) (h : c.toNat < Nat.pow 16 width) (rest : Text) :
    codePoint width (hex width c.toNat ++ rest) = (c, rest) := by
  have hlength := length_hex hwidth h
  rw [codePoint, List.take_left' hlength, List.drop_left' hlength, hexValue_hex, Char.ofNat_toNat]

theorem unescape_of_ne (hc : c ≠ '\\') (rest : Text) : unescape (c :: rest) = some (c, rest) := by
  unfold unescape
  split <;> simp_all

theorem quoteMark_cases (t : Text) : quoteMark t = '\'' ∨ quoteMark t = '"' := by
  unfold quoteMark
  split
  · exact Or.inr rfl
  · exact Or.inl rfl

theorem unescape_escape (hmark : mark = '\'' ∨ mark = '"') (c : Char) (rest : Text) :
    unescape (escape mark c ++ rest) = some (c, rest) := by
  unfold escape
  split_ifs with hself hfeed hreturn htab hprintable htwo hfour
  · have hcases : c = '\'' ∨ c = '"' ∨ c = '\\' := by
      rcases hself with rfl | rfl
      · exact hmark.imp_right Or.inl
      · exact Or.inr (Or.inr rfl)
    rcases hcases with rfl | rfl | rfl <;> rfl
  · rw [hfeed]
    rfl
  · rw [hreturn]
    rfl
  · rw [htab]
    rfl
  · exact unescape_of_ne (fun hc => hself (Or.inr hc)) rest
  · exact congrArg some (codePoint_hex (by decide) htwo rest)
  · exact congrArg some (codePoint_hex (by decide) hfour rest)
  · have hmax : c.toNat < Nat.pow 16 8 := c.val.toNat_lt
    exact congrArg some (codePoint_hex (by decide) hmax rest)

theorem isPrintable_of_mem_code {d letter : Char} (hletter : isPrintable letter)
    (hd : d ∈ '\\' :: letter :: hex width n) : isPrintable d := by
  rcases List.mem_cons.mp hd with rfl | hd
  · decide
  · rcases List.mem_cons.mp hd with rfl | hd
    · exact hletter
    · exact isPrintable_of_mem_hex hd

theorem isPrintable_of_mem_escape (hmark : mark = '\'' ∨ mark = '"') {d : Char}
    (hd : d ∈ escape mark c) : isPrintable d := by
  unfold escape at hd
  split_ifs at hd with hself hfeed hreturn htab hprintable htwo hfour
  · have hc : isPrintable c := by
      rcases hself with rfl | rfl
      · rcases hmark with rfl | rfl <;> decide
      · decide
    rcases List.mem_cons.mp hd with rfl | hd
    · decide
    · rwa [List.mem_singleton.mp hd]
  · exact List.all_eq_true.mp (by decide : ['\\', 'n'].all isPrintable) d hd
  · exact List.all_eq_true.mp (by decide : ['\\', 'r'].all isPrintable) d hd
  · exact List.all_eq_true.mp (by decide : ['\\', 't'].all isPrintable) d hd
  · rwa [List.mem_singleton.mp hd]
  · exact isPrintable_of_mem_code (by decide) hd
  · exact isPrintable_of_mem_code (by decide) hd
  · exact isPrintable_of_mem_code (by decide) hd

/-! ## Quoted texts -/

theorem isPrintable_of_mem_quoted (hc : c ∈ quoted t) : isPrintable c := by
  have hmark : isPrintable (quoteMark t) := by
    rcases quoteMark_cases t with h | h <;> rw [h] <;> decide
  unfold quoted at hc
  rcases List.mem_append.mp hc with hc | hc
  · rcases List.mem_cons.mp hc with rfl | hc
    · exact hmark
    · obtain ⟨d, -, hd⟩ := List.mem_flatMap.mp hc
      exact isPrintable_of_mem_escape (quoteMark_cases t) hd
  · rw [List.mem_singleton.mp hc]
    exact hmark

theorem escape_append_ne (hmark : mark = '\'' ∨ mark = '"') (c : Char) (rest more : Text) :
    escape mark c ++ rest ≠ mark :: more := by
  have hescape : ∀ t : Text, '\\' :: t ++ rest ≠ mark :: more := by
    rintro t h
    obtain ⟨h, -⟩ := List.cons.inj h
    rcases hmark with rfl | rfl <;> exact absurd h (by decide)
  unfold escape
  split_ifs with hself
  · exact hescape _
  · exact hescape _
  · exact hescape _
  · exact hescape _
  · exact fun h => hself (Or.inl (List.cons.inj h).1)
  · exact hescape _
  · exact hescape _
  · exact hescape _

/-- Escapes up to the mark tell the text, and where they end. -/
theorem flatMap_escape_append_inj (hmark : mark = '\'' ∨ mark = '"')
    (h : s.flatMap (escape mark) ++ mark :: rest = t.flatMap (escape mark) ++ mark :: rest') :
    s = t ∧ rest = rest' := by
  induction s generalizing t with
  | nil =>
    cases t with
    | nil => exact ⟨rfl, (List.cons.inj h).2⟩
    | cons d t =>
      rw [List.flatMap_cons, List.append_assoc] at h
      exact absurd h.symm (escape_append_ne hmark d _ _)
  | cons c s ih =>
    rw [List.flatMap_cons, List.append_assoc] at h
    cases t with
    | nil => exact absurd h (escape_append_ne hmark c _ _)
    | cons d t =>
      rw [List.flatMap_cons, List.append_assoc] at h
      have hunescape := congrArg unescape h
      rw [unescape_escape hmark, unescape_escape hmark] at hunescape
      obtain ⟨rfl, hmore⟩ := Prod.mk.inj (Option.some.inj hunescape)
      obtain ⟨rfl, hrest⟩ := ih hmore
      exact ⟨rfl, hrest⟩

theorem quoted_append_inj (h : quoted s ++ rest = quoted t ++ rest') : s = t ∧ rest = rest' := by
  unfold quoted at h
  rw [List.append_assoc, List.append_assoc, List.cons_append, List.cons_append] at h
  obtain ⟨hmark, hmore⟩ := List.cons.inj h
  rw [hmark] at hmore
  exact flatMap_escape_append_inj (quoteMark_cases t) hmore

theorem quoted_injective (h : quoted s = quoted t) : s = t :=
  (quoted_append_inj (congrArg (· ++ []) h)).1

end SExpr.Text
