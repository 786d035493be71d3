import Mathlib.Tactic.SplitIfs
import SExpr.Text.Utf8

/-!
# Decoding what was encoded

A character is encoded as a lead byte, which tells how many bytes follow, and as continuation bytes
with six bits each. Decoding takes these bytes for the character again, whatever follows them.
-/
namespace SExpr.Text.Utf8

variable {rest : List UInt8} {bits following offset n v : Nat} {low high : UInt8} {t : Text}

theorem toNat_ofNat (h : n < 256) : (UInt8.ofNat n).toNat = n :=
  UInt8.toNat_ofNat_of_lt h

/-! ## Lead bytes and continuation bytes -/

theorem lead?_ofNat (h : n < 256) : lead? (UInt8.ofNat n) =
    if n < 0x80 then some ⟨n, 0, 0x80, 0xBF⟩
    else if n < 0xC2 then none
    else if n < 0xE0 then some ⟨n - 0xC0, 1, 0x80, 0xBF⟩
    else if n < 0xF0 then
      some ⟨n - 0xE0, 2, if n = 0xE0 then 0xA0 else 0x80, if n = 0xED then 0x9F else 0xBF⟩
    else if n < 0xF5 then
      some ⟨n - 0xF0, 3, if n = 0xF0 then 0x90 else 0x80, if n = 0xF4 then 0x8F else 0xBF⟩
    else none := by
  unfold lead?
  simp only [UInt8.lt_iff_toNat_lt, ← UInt8.toNat_inj, toNat_ofNat h, UInt8.reduceToNat]

theorem continuation_zero (bits : Nat) (low high : UInt8) (rest : List UInt8) :
    continuation bits 0 low high rest = .ok bits := by
  cases rest <;> simp [continuation]

theorem continuation_ofNat (hn : n < 64) (hlow : low.toNat ≤ n + 128)
    (hhigh : n + 128 ≤ high.toNat)
    (h : continuation (bits * 64 + n) following 0x80 0xBF rest = .ok v) :
    continuation bits (following + 1) low high (UInt8.ofNat (n + 128) :: rest) = .ok v := by
  have hbyte : (UInt8.ofNat (n + 128)).toNat = n + 128 := toNat_ofNat (by omega)
  have hbounds : low ≤ UInt8.ofNat (n + 128) ∧ UInt8.ofNat (n + 128) ≤ high := by
    rw [UInt8.le_iff_toNat_le, UInt8.le_iff_toNat_le, hbyte]
    exact ⟨hlow, hhigh⟩
  have hbits : (UInt8.ofNat (n + 128)).toNat - 0x80 = n := by omega
  rw [continuation]
  simp only [hbounds, and_self, if_true, hbits, h]

theorem continuation_last (hn : n < 64) (hlow : low.toNat ≤ n + 128)
    (hhigh : n + 128 ≤ high.toNat) (hv : bits * 64 + n = v) :
    continuation bits 1 low high (UInt8.ofNat (n + 128) :: rest) = .ok v := by
  apply continuation_ofNat hn hlow hhigh
  rw [continuation_zero, hv]

/-! ## Characters -/

variable {c : Char}

theorem decodeFrom_lead {lead : Lead} (hn : lead? (UInt8.ofNat n) = some lead)
    (hc : continuation lead.bits lead.following lead.low lead.high rest = .ok c.toNat)
    (h : decodeFrom (offset + lead.following + 1) (rest.drop lead.following) = .ok t) :
    decodeFrom offset (UInt8.ofNat n :: rest) = .ok (c :: t) := by
  rw [decodeFrom, hn]
  simp only [hc, h, Char.ofNat_toNat]

theorem decodeFrom_one (hc : c.toNat ≤ 0x7F) (h : decodeFrom (offset + 1) rest = .ok t) :
    decodeFrom offset (UInt8.ofNat c.toNat :: rest) = .ok (c :: t) := by
  have hlead := lead?_ofNat (n := c.toNat) (by omega)
  rw [if_pos (by omega)] at hlead
  exact decodeFrom_lead hlead (continuation_zero ..) h

theorem decodeFrom_two (hlow : 0x7F < c.toNat) (hhigh : c.toNat ≤ 0x7FF)
    (h : decodeFrom (offset + 2) rest = .ok t) :
    decodeFrom offset (UInt8.ofNat (c.toNat / 64 % 32 + 192) ::
      UInt8.ofNat (c.toNat % 64 + 128) :: rest) = .ok (c :: t) := by
  have hlead := lead?_ofNat (n := c.toNat / 64 % 32 + 192) (by omega)
  rw [if_neg (by omega), if_neg (by omega), if_pos (by omega)] at hlead
  refine decodeFrom_lead hlead ?_ h
  exact continuation_last (by omega) (by simp) (by simp; omega) (by simp only; omega)

/-- The bounds of the second byte keep out shorter forms and surrogates, and no character is one of
these. -/
theorem decodeFrom_three (hlow : 0x7FF < c.toNat) (hhigh : c.toNat ≤ 0xFFFF)
    (hscalar : c.toNat < 0xD800 ∨ 0xDFFF < c.toNat) (h : decodeFrom (offset + 3) rest = .ok t) :
    decodeFrom offset (UInt8.ofNat (c.toNat / 4096 % 16 + 224) ::
      UInt8.ofNat (c.toNat / 64 % 64 + 128) :: UInt8.ofNat (c.toNat % 64 + 128) :: rest) =
      .ok (c :: t) := by
  have hlead := lead?_ofNat (n := c.toNat / 4096 % 16 + 224) (by omega)
  rw [if_neg (by omega), if_neg (by omega), if_neg (by omega), if_pos (by omega)] at hlead
  refine decodeFrom_lead hlead ?_ h
  apply continuation_ofNat (by omega)
  · simp only
    split_ifs <;> simp
    omega
  · simp only
    split_ifs <;> simp <;> omega
  · exact continuation_last (by omega) (by simp) (by simp; omega) (by simp only; omega)

theorem decodeFrom_four (hlow : 0xFFFF < c.toNat) (hhigh : c.toNat < 0x110000)
    (h : decodeFrom (offset + 4) rest = .ok t) :
    decodeFrom offset (UInt8.ofNat (c.toNat / 262144 % 8 + 240) ::
      UInt8.ofNat (c.toNat / 4096 % 64 + 128) :: UInt8.ofNat (c.toNat / 64 % 64 + 128) ::
      UInt8.ofNat (c.toNat % 64 + 128) :: rest) = .ok (c :: t) := by
  have hlead := lead?_ofNat (n := c.toNat / 262144 % 8 + 240) (by omega)
  rw [if_neg (by omega), if_neg (by omega), if_neg (by omega), if_neg (by omega),
    if_pos (by omega)] at hlead
  refine decodeFrom_lead hlead ?_ h
  apply continuation_ofNat (by omega)
  · simp only
    split_ifs <;> simp
    omega
  · simp only
    split_ifs <;> simp <;> omega
  · apply continuation_ofNat (by omega) (by simp) (by simp; omega)
    exact continuation_last (by omega) (by simp) (by simp; omega) (by simp only; omega)

theorem decodeFrom_encodeChar
    (h : decodeFrom (offset + (String.utf8EncodeChar c).length) rest = .ok t) :
    decodeFrom offset (String.utf8EncodeChar c ++ rest) = .ok (c :: t) := by
  have hscalar : c.toNat < 0xD800 ∨ 0xDFFF < c.toNat ∧ c.toNat < 0x110000 := c.valid
  have hval : c.val.toNat = c.toNat := rfl
  unfold String.utf8EncodeChar at h ⊢
  simp only [hval] at h ⊢
  split_ifs at h ⊢ with hone htwo hthree
  · exact decodeFrom_one hone h
  · exact decodeFrom_two (by omega) htwo h
  · exact decodeFrom_three (by omega) hthree (by omega) h
  · exact decodeFrom_four (by omega) (by omega) h

theorem decodeFrom_encode (offset : Nat) (t : Text) : decodeFrom offset (encode t) = .ok t := by
  induction t generalizing offset with
  | nil => simp [encode, decodeFrom]
  | cons c t ih =>
    rw [encode, List.flatMap_cons]
    exact decodeFrom_encodeChar (ih _)

/-- Decoding undoes encoding. -/
theorem decode_encode (t : Text) : decode (encode t) = .ok t :=
  decodeFrom_encode 0 t

end SExpr.Text.Utf8
