import SExpr.Proofs.Lexeme.FirstCharacter

/-!
# The scanner finds the longest lexeme

Whatever the first character is, the classifier answers with a kind and a length such that the text
of that length is a lexeme of that kind, and no longer text at the front of the source is a lexeme
of any kind. Each branch of the classifier has its own statement.
-/
namespace SExpr.Lexeme

/-- `t` is a lexeme of kind `k`, and no lexeme at the front of `t ++ rest` is longer. -/
def IsLongest (k : Kind) (t rest : Text) : Prop :=
  Is k t ∧ ∀ k' t', Is k' t' → t' <+: t ++ rest → t'.length ≤ t.length

variable {c : Char} {m rest : Text} {k : Kind} {n : Nat} {p : Char → Bool}

theorem isLongest_take (hn : n ≤ rest.length) (h : Is k (c :: rest.take n))
    (hmax : ∀ k' m, Is k' (c :: m) → m <+: rest → m.length ≤ n) :
    IsLongest k (c :: rest.take n) (rest.drop n) := by
  refine ⟨h, fun k' t ht hp => ?_⟩
  rw [List.cons_append, List.take_append_drop] at hp
  rw [List.length_cons, List.length_take, Nat.min_eq_left hn]
  rcases t with _ | ⟨d, m⟩
  · simp
  · obtain ⟨rfl, hm⟩ := List.cons_prefix_cons.mp hp
    exact Nat.succ_le_succ (hmax k' m ht hm)

theorem take_length_takeWhile (p : Char → Bool) (t : Text) :
    t.take (t.takeWhile p).length = t.takeWhile p :=
  (List.prefix_iff_eq_take.mp (List.takeWhile_prefix p)).symm

theorem length_le_takeWhile (hp : m <+: rest) (hm : ∀ d ∈ m, p d = true) :
    m.length ≤ (rest.takeWhile p).length := by
  obtain ⟨more, rfl⟩ := hp
  rw [List.takeWhile_append_of_pos hm]
  simp

/-- Where lexemes go on within a class only, the longest takes the whole run of the class. -/
theorem isLongest_takeWhile (h : Is k (c :: rest.takeWhile p))
    (hmax : ∀ k' m, Is k' (c :: m) → m <+: rest → ∀ d ∈ m, p d = true) :
    IsLongest k (c :: rest.take (rest.takeWhile p).length)
      (rest.drop (rest.takeWhile p).length) := by
  apply isLongest_take
  · exact (List.takeWhile_prefix p).length_le
  · rwa [take_length_takeWhile]
  · intro k' m hm hp
    exact length_le_takeWhile hp (hmax k' m hm hp)

theorem isLongest_takeWhile_of_iff
    (hiff : ∀ k' m, Is k' (c :: m) ↔ k' = k ∧ ∀ d ∈ m, p d = true) :
    IsLongest k (c :: rest.take (rest.takeWhile p).length)
      (rest.drop (rest.takeWhile p).length) :=
  isLongest_takeWhile ((hiff _ _).mpr ⟨rfl, fun _ hd => List.mem_takeWhile_imp hd⟩)
    fun k' m hm _ => ((hiff k' m).mp hm).2

theorem isLongest_single (h : single? c = some k) : IsLongest k [c] rest := by
  refine isLongest_take (Nat.zero_le _) ((is_single_iff h).mpr ⟨rfl, rfl⟩) ?_
  intro k' m hm _
  simp [((is_single_iff h).mp hm).2]

theorem isLongest_comma : IsLongest (commaTail rest).1 (',' :: rest.take (commaTail rest).2)
    (rest.drop (commaTail rest).2) := by
  have hmax : ∀ k' m, Is k' (',' :: m) → m = [] ∨ m = ['@'] := fun k' m hm =>
    (is_comma_iff.mp hm).imp And.right And.right
  unfold commaTail
  split
  · refine isLongest_take (by simp) (is_comma_iff.mpr (Or.inr ⟨rfl, by simp⟩)) ?_
    intro k' m hm _
    rcases hmax k' m hm with rfl | rfl <;> simp
  · rename_i hat
    refine isLongest_take (by simp) (is_comma_iff.mpr (Or.inl ⟨rfl, rfl⟩)) ?_
    intro k' m hm hp
    rcases hmax k' m hm with rfl | rfl
    · simp
    · obtain ⟨more, rfl⟩ := hp
      exact absurd rfl (hat more)

theorem length_le_one_of_hash (hrest : rest.head? = some 't' ∨ rest.head? = some 'f')
    (hm : Is k ('#' :: m)) (hp : m <+: rest) : m.length ≤ 1 := by
  rcases is_hash_iff.mp hm with ⟨-, rfl | rfl⟩ | ⟨-, -, ht, hf⟩
  · exact Nat.le_refl _
  · exact Nat.le_refl _
  · rcases m with _ | ⟨d, m⟩
    · exact Nat.zero_le _
    · obtain ⟨more, rfl⟩ := hp
      exact (hrest.elim ht hf).elim

theorem isLongest_hash : IsLongest (hashTail rest).1 ('#' :: rest.take (hashTail rest).2)
    (rest.drop (hashTail rest).2) := by
  unfold hashTail
  split
  · exact isLongest_take (by simp) (is_hash_iff.mpr (Or.inl ⟨rfl, Or.inl (by simp)⟩))
      fun _ _ => length_le_one_of_hash (Or.inl rfl)
  · exact isLongest_take (by simp) (is_hash_iff.mpr (Or.inl ⟨rfl, Or.inr (by simp)⟩))
      fun _ _ => length_le_one_of_hash (Or.inr rfl)
  · rename_i ht hf
    have hhead : rest.head? ≠ some 't' ∧ rest.head? ≠ some 'f' := by
      rcases rest with _ | ⟨d, rest⟩
      · simp
      · exact ⟨fun h => ht rest (by simpa using h), fun h => hf rest (by simpa using h)⟩
    apply isLongest_takeWhile
    · refine is_hash_iff.mpr (Or.inr ⟨rfl, fun d hd => List.mem_takeWhile_imp hd, ?_⟩)
      rw [List.head?_takeWhile]
      rcases rest with _ | ⟨d, rest⟩
      · simp
      · simp at hhead
        simp [Option.filter, hhead]
    · intro k' m hm hp
      rcases is_hash_iff.mp hm with ⟨-, rfl | rfl⟩ | ⟨-, hall, -⟩
      · exact absurd (List.singleton_prefix_iff_head?_eq_some.mp hp) hhead.1
      · exact absurd (List.singleton_prefix_iff_head?_eq_some.mp hp) hhead.2
      · exact hall

def fractionLength : Text → Nat
  | '.' :: fraction => 1 + (fraction.takeWhile CharClass.digit.contains).length
  | _ => 0

theorem takeWhile_append_of_head {whole after : Text} (hw : ∀ d ∈ whole, p d = true)
    (ha : ∀ d ∈ after.head?, p d = false) : (whole ++ after).takeWhile p = whole := by
  rw [List.takeWhile_append_of_pos hw]
  rcases after with _ | ⟨d, after⟩
  · simp
  · simp [ha d rfl]

theorem numberTail_append {whole after : Text} (hc : c ≠ '.')
    (hw : ∀ d ∈ whole, CharClass.digit.contains d = true)
    (ha : ∀ d ∈ after.head?, CharClass.digit.contains d = false) :
    numberTail c (whole ++ after) = whole.length + fractionLength after := by
  simp only [numberTail, CharClass.run, takeWhile_append_of_head hw ha, List.drop_left]
  split
  · simp [fractionLength, hc, Nat.add_assoc]
  · rename_i hpoint
    rw [fractionLength]
    · rfl
    · exact hpoint

theorem exists_digits_append (t : Text) : ∃ whole after, t = whole ++ after ∧
    (∀ d ∈ whole, CharClass.digit.contains d = true) ∧
      ∀ d ∈ after.head?, CharClass.digit.contains d = false := by
  refine ⟨t.takeWhile CharClass.digit.contains, t.dropWhile CharClass.digit.contains,
    List.takeWhile_append_dropWhile.symm, fun d hd => List.mem_takeWhile_imp hd, fun d hd => ?_⟩
  have hhead := List.head?_dropWhile_not CharClass.digit.contains t
  rw [Option.mem_def.mp hd] at hhead
  exact hhead

theorem fractionLength_le (t : Text) : fractionLength t ≤ t.length := by
  unfold fractionLength
  split
  · rename_i fraction
    have := (List.takeWhile_prefix (l := fraction) CharClass.digit.contains).length_le
    rw [List.length_cons]
    omega
  · exact Nat.zero_le _

theorem numberTail_le (hc : c ≠ '.') : numberTail c rest ≤ rest.length := by
  obtain ⟨whole, after, rfl, hw, ha⟩ := exists_digits_append rest
  rw [numberTail_append hc hw ha, List.length_append]
  exact Nat.add_le_add_left (fractionLength_le after) _

theorem isNumberEnd_take (hc : c ≠ '.') : IsNumberEnd (rest.take (numberTail c rest)) := by
  obtain ⟨whole, after, rfl, hw, ha⟩ := exists_digits_append rest
  rw [numberTail_append hc hw ha, List.take_length_add_append]
  unfold fractionLength
  split
  · rename_i fraction
    refine Or.inr ⟨whole, fraction.takeWhile CharClass.digit.contains, hw,
      fun d hd => List.mem_takeWhile_imp hd, ?_⟩
    rw [Nat.add_comm 1, List.take_succ_cons, take_length_takeWhile]
  · exact Or.inl (by simpa using hw)

theorem length_le_numberTail (hc : c ≠ '.') (hm : IsNumberEnd m) (hp : m <+: rest) :
    m.length ≤ numberTail c rest := by
  rcases hm with hm | ⟨whole, fraction, hw, hf, rfl⟩
  · obtain ⟨whole, after, rfl, hw, ha⟩ := exists_digits_append rest
    have hle := length_le_takeWhile hp hm
    rw [takeWhile_append_of_head hw ha] at hle
    rw [numberTail_append hc hw ha]
    omega
  · obtain ⟨more, rfl⟩ := hp
    rw [List.append_assoc, List.cons_append, numberTail_append hc hw (by simp; decide)]
    simp only [fractionLength, List.takeWhile_append_of_pos hf, List.length_append,
      List.length_cons]
    omega

theorem startsNumber_minus_point (rest : Text) :
    startsNumber '-' ('.' :: rest) = startsNumber '.' rest := by
  rcases rest with _ | ⟨d, rest⟩ <;> rfl

theorem startsNumber_minus_cons {d : Char} (hd : d ≠ '.') (rest : Text) :
    startsNumber '-' (d :: rest) = d.isDigit := by
  rcases rest with _ | ⟨e, rest⟩ <;> simp [startsNumber, hd]

theorem startsNumber_point :
    startsNumber '.' rest = true ↔ ∃ d ∈ rest.head?, CharClass.digit.contains d = true := by
  rcases rest with _ | ⟨d, rest⟩ <;> simp [startsNumber, CharClass.contains]

theorem startsNumber_minus : startsNumber '-' rest = true ↔ ∃ m, IsUnsigned m ∧ m <+: rest := by
  rcases rest with _ | ⟨d, rest⟩
  · simp [startsNumber, isUnsigned_iff]
  constructor
  · intro h
    by_cases hd : d = '.'
    · subst hd
      rw [startsNumber_minus_point] at h
      obtain ⟨e, he, hdigit⟩ := startsNumber_point.mp h
      refine ⟨['.', e], isUnsigned_point_iff.mpr (isRun_cons.mpr ⟨hdigit, by simp⟩), ?_⟩
      simpa [List.singleton_prefix_iff_head?_eq_some] using he
    · rw [startsNumber_minus_cons hd] at h
      exact ⟨[d], (isUnsigned_digit_iff h).mpr (Or.inl (by simp)), by simp⟩
  · rintro ⟨_ | ⟨e, m⟩, hm, hp⟩
    · exact absurd (isUnsigned_iff.mp hm).2 (by simp)
    · obtain ⟨rfl, htail⟩ := List.cons_prefix_cons.mp hp
      by_cases hpoint : e = '.'
      · subst hpoint
        rw [startsNumber_minus_point, startsNumber_point]
        obtain ⟨hne, hall⟩ := isUnsigned_point_iff.mp hm
        rcases m with _ | ⟨f, m⟩
        · exact absurd rfl hne
        · obtain ⟨more, rfl⟩ := htail
          exact ⟨f, rfl, hall f (by simp)⟩
      · rw [startsNumber_minus_cons hpoint]
        exact hm.first.resolve_right hpoint

theorem isLongest_digit (h : c.isDigit = true) : IsLongest .number
    (c :: rest.take (numberTail c rest)) (rest.drop (numberTail c rest)) := by
  have hc : c ≠ '.' := by rintro rfl; simp at h
  refine isLongest_take (numberTail_le hc) ((is_digit_iff h).mpr ⟨rfl, isNumberEnd_take hc⟩) ?_
  intro k' m hm hp
  exact length_le_numberTail hc ((is_digit_iff h).mp hm).2 hp

theorem isLongest_minus_number (h : startsNumber '-' rest = true) : IsLongest .number
    ('-' :: rest.take (numberTail '-' rest)) (rest.drop (numberTail '-' rest)) := by
  have hc : '-' ≠ '.' := by decide
  obtain ⟨u, hu, hfront⟩ := startsNumber_minus.mp h
  have hnumber := isUnsigned_iff.mp hu
  apply isLongest_take (numberTail_le hc)
  · refine is_minus_iff.mpr (Or.inl ⟨rfl, isUnsigned_iff.mpr ⟨isNumberEnd_take hc, ?_⟩⟩)
    obtain ⟨d, hd, hdigit⟩ := hnumber.2
    have htake : u <+: rest.take (numberTail '-' rest) :=
      List.prefix_take_iff.mpr ⟨hfront, length_le_numberTail hc hnumber.1 hfront⟩
    exact ⟨d, htake.subset hd, hdigit⟩
  · intro k' m hm hp
    rcases is_minus_iff.mp hm with ⟨-, hm⟩ | ⟨-, hall, hhead⟩
    · exact length_le_numberTail hc (isUnsigned_iff.mp hm).1 hp
    · -- a symbol ends before the digit or point with which the number goes on
      rcases m with _ | ⟨d, m⟩
      · exact Nat.zero_le _
      · rcases u with _ | ⟨e, u⟩
        · exact absurd hnumber.2 (by simp)
        · obtain ⟨more, rfl⟩ := hfront
          obtain ⟨rfl, -⟩ := List.cons_prefix_cons.mp hp
          rcases hu.first with hd | rfl
          · simp [hhead d rfl] at hd
          · exact absurd (hall '.' (by simp)) (by decide)

theorem isLongest_minus_symbol (h : startsNumber '-' rest = false) : IsLongest .symbol
    ('-' :: rest.take (CharClass.symbol.run rest)) (rest.drop (CharClass.symbol.run rest)) := by
  apply isLongest_takeWhile
  · refine is_minus_iff.mpr (Or.inr ⟨rfl, fun d hd => List.mem_takeWhile_imp hd, ?_⟩)
    intro d hd
    rw [Bool.eq_false_iff]
    intro hdigit
    have hstart : startsNumber '-' rest = true := by
      refine startsNumber_minus.mpr ⟨[d], (isUnsigned_digit_iff hdigit).mpr (Or.inl (by simp)), ?_⟩
      exact (List.singleton_prefix_iff_head?_eq_some.mpr hd).trans (List.takeWhile_prefix _)
    simp [h] at hstart
  · intro k' m hm hp
    rcases is_minus_iff.mp hm with ⟨-, hm⟩ | ⟨-, hall, -⟩
    · simp [startsNumber_minus.mpr ⟨m, hm, hp⟩] at h
    · exact hall

theorem numberTail_point (rest : Text) :
    numberTail '.' rest = (rest.takeWhile CharClass.digit.contains).length := by
  simp only [numberTail, CharClass.run]
  split <;> simp

theorem isLongest_point_number (h : startsNumber '.' rest = true) : IsLongest .number
    ('.' :: rest.take (numberTail '.' rest)) (rest.drop (numberTail '.' rest)) := by
  obtain ⟨e, he, hdigit⟩ := startsNumber_point.mp h
  rw [numberTail_point]
  apply isLongest_takeWhile
  · refine is_point_iff.mpr (Or.inr (Or.inr ⟨rfl, ?_, fun d hd => List.mem_takeWhile_imp hd⟩))
    apply List.ne_nil_of_mem (a := e)
    apply List.mem_of_mem_head?
    rw [List.head?_takeWhile, he]
    simp [hdigit]
  · intro k' m hm hp
    rcases is_point_iff.mp hm with ⟨-, rfl⟩ | ⟨-, hm⟩ | ⟨-, hm⟩
    · simp
    · -- an ellipsis goes on with a point and not with a digit
      have hhead := head?_of_ellipsis hm
      obtain ⟨more, rfl⟩ := hp
      simp [hhead] at he
      subst he
      exact absurd hdigit (by decide)
    · exact hm.2

theorem isLongest_number (h : startsNumber c rest = true) : IsLongest .number
    (c :: rest.take (numberTail c rest)) (rest.drop (numberTail c rest)) := by
  by_cases hdigit : c.isDigit = true
  · exact isLongest_digit hdigit
  by_cases hminus : c = '-'
  · subst hminus
    exact isLongest_minus_number h
  by_cases hpoint : c = '.'
  · subst hpoint
    exact isLongest_point_number h
  · simp [startsNumber, hdigit, hminus, hpoint] at h

theorem point_cases (h : startsNumber '.' rest = false) (hm : Is k ('.' :: m)) (hp : m <+: rest) :
    m = [] ∨ m = ['.', '.'] ∨ ∃ digits, IsRun .digit digits ∧ m = '.' :: digits := by
  rcases is_point_iff.mp hm with ⟨-, rfl⟩ | ⟨-, hm⟩ | ⟨-, hne, hall⟩
  · exact Or.inl rfl
  · exact Or.inr hm
  · rcases m with _ | ⟨d, m⟩
    · exact absurd rfl hne
    · obtain ⟨more, rfl⟩ := hp
      have hstart : startsNumber '.' (d :: m ++ more) = true :=
        startsNumber_point.mpr ⟨d, by simp, hall d (by simp)⟩
      exact absurd (h.symm.trans hstart) Bool.false_ne_true

theorem isLongest_three_points (h : startsNumber '.' ('.' :: '.' :: rest) = false) :
    IsLongest .ellipsis ['.', '.', '.'] rest := by
  have hthree : Is .ellipsis ['.', '.', '.'] :=
    is_point_iff.mpr (Or.inr (Or.inl ⟨rfl, Or.inl rfl⟩))
  change IsLongest .ellipsis ('.' :: ('.' :: '.' :: rest).take 2) (('.' :: '.' :: rest).drop 2)
  refine isLongest_take (by simp) hthree fun k' m hm hp => ?_
  rcases point_cases h hm hp with rfl | rfl | ⟨_ | ⟨d, digits⟩, ⟨-, hall⟩, rfl⟩
  · simp
  · simp
  · simp
  · obtain ⟨rfl, -⟩ := List.cons_prefix_cons.mp (List.cons_prefix_cons.mp hp).2
    exact absurd (hall '.' (by simp)) (by decide)

theorem isLongest_two_points (h : startsNumber '.' ('.' :: rest) = false)
    (hthird : ∀ more, rest ≠ '.' :: more) :
    IsLongest (pointTail ('.' :: rest)).1 ('.' :: ('.' :: rest).take (pointTail ('.' :: rest)).2)
      (('.' :: rest).drop (pointTail ('.' :: rest)).2) := by
  have hmax : ∀ k' m, Is k' ('.' :: m) → m <+: '.' :: rest → m = [] ∨
      ∃ digits, digits ≠ [] ∧ m = '.' :: digits ∧ digits.length ≤ CharClass.digit.run rest := by
    intro k' m hm hp
    rcases point_cases h hm hp with rfl | rfl | ⟨digits, hrun, rfl⟩
    · exact Or.inl rfl
    · obtain ⟨more, hmore⟩ := (List.cons_prefix_cons.mp hp).2
      exact absurd hmore.symm (hthird more)
    · have hdigits := length_le_takeWhile (List.cons_prefix_cons.mp hp).2 hrun.2
      exact Or.inr ⟨digits, hrun.1, rfl, hdigits⟩
  have htail : pointTail ('.' :: rest) = if CharClass.digit.run rest = 0 then (.dot, 0)
      else (.ellipsis, CharClass.digit.run rest + 1) := by
    rw [pointTail]
    exact hthird
  rw [htail]
  split
  · rename_i hzero
    refine isLongest_take (Nat.zero_le _) (is_point_iff.mpr (Or.inl ⟨rfl, rfl⟩)) ?_
    intro k' m hm hp
    rcases hmax k' m hm hp with rfl | ⟨digits, hne, -, hle⟩
    · simp
    · exact absurd (List.length_eq_zero_iff.mp (by omega)) hne
  · rename_i hpos
    apply isLongest_take
    · exact Nat.succ_le_succ (List.takeWhile_prefix _).length_le
    · refine is_point_iff.mpr (Or.inr (Or.inl ⟨rfl, Or.inr ⟨_, ?_, List.take_succ_cons⟩⟩))
      rw [CharClass.run, take_length_takeWhile]
      exact ⟨fun hnil => hpos (by simp [CharClass.run, hnil]),
        fun d hd => List.mem_takeWhile_imp hd⟩
    · intro k' m hm hp
      rcases hmax k' m hm hp with rfl | ⟨digits, -, rfl, hle⟩
      · simp
      · exact Nat.succ_le_succ hle

theorem isLongest_point (h : startsNumber '.' rest = false) : IsLongest (pointTail rest).1
    ('.' :: rest.take (pointTail rest).2) (rest.drop (pointTail rest).2) := by
  by_cases hsecond : ∃ rest', rest = '.' :: rest'
  · obtain ⟨rest, rfl⟩ := hsecond
    by_cases hthird : ∃ rest', rest = '.' :: rest'
    · obtain ⟨rest, rfl⟩ := hthird
      exact isLongest_three_points h
    · exact isLongest_two_points h (not_exists.mp hthird)
  · have htail : pointTail rest = (.dot, 0) := by
      rw [pointTail]
      · exact fun more hmore => hsecond ⟨_, hmore⟩
      · exact not_exists.mp hsecond
    rw [htail]
    refine isLongest_take (Nat.zero_le _) (is_point_iff.mpr (Or.inl ⟨rfl, rfl⟩)) ?_
    intro k' m hm ⟨more, hmore⟩
    rcases point_cases h hm ⟨more, hmore⟩ with rfl | rfl | ⟨digits, -, rfl⟩
    · simp
    · exact absurd ⟨_, hmore.symm⟩ hsecond
    · exact absurd ⟨_, hmore.symm⟩ hsecond

theorem isLongest_classify (first : Char) (rest : Text) : IsLongest (classify first rest).1
    (first :: rest.take (classify first rest).2) (rest.drop (classify first rest).2) := by
  unfold classify
  split
  · rename_i kind hsingle
    exact isLongest_single hsingle
  rename_i hsingle
  split_ifs with hcomma hnumber hpoint hhash hsymbol hwhitespace hsemicolon
  · subst hcomma
    exact isLongest_comma
  · exact isLongest_number hnumber
  · subst hpoint
    exact isLongest_point (by simpa using hnumber)
  · subst hhash
    exact isLongest_hash
  · by_cases hminus : first = '-'
    · subst hminus
      exact isLongest_minus_symbol (by simpa using hnumber)
    · exact isLongest_takeWhile_of_iff fun _ _ => is_symbolStart_iff hsymbol hminus
  · exact isLongest_takeWhile_of_iff fun _ _ => is_whitespace_iff hwhitespace
  · subst hsemicolon
    exact isLongest_takeWhile_of_iff fun _ _ => is_semicolon_iff.trans (by simp)
  · have hdigit : first.isDigit = false := by
      rw [Bool.eq_false_iff]
      exact fun h => hnumber (by simp [startsNumber, h])
    exact isLongest_takeWhile_of_iff fun _ _ => is_other_iff <|
      starts_eq_false hsingle hcomma hdigit hpoint hhash hsymbol hwhitespace hsemicolon

end SExpr.Lexeme
