import Mathlib.Tactic.Common
import PromqlGuide.Text.Utf8

/-!
# Bytes that are text

A character has one to four bytes. The decoder keeps a pending character while its bytes arrive,
and the range of the second byte excludes what no character has: numbers that fewer bytes could
hold, halves of surrogate pairs, and numbers beyond the last character.

Main statement: bytes are decoded exactly if they are the bytes of a text, and then to that text
(`Utf8.decode_eq_ok_iff`).
-/
namespace PromqlGuide.Utf8

/-- The bytes of a text. -/
def encode (cs : List Char) : List Nat :=
  cs.flatMap fun c => (String.utf8EncodeChar c).map UInt8.toNat

/-! ### The bytes of one character -/

/-- The bytes of the character with a number. -/
def charBytes (n : Nat) : List Nat :=
  if n < 0x80 then [n]
  else if n < 0x800 then [n / 64 + 0xC0, n % 64 + 0x80]
  else if n < 0x10000 then [n / 4096 + 0xE0, n / 64 % 64 + 0x80, n % 64 + 0x80]
  else [n / 262144 + 0xF0, n / 4096 % 64 + 0x80, n / 64 % 64 + 0x80, n % 64 + 0x80]

/-- Code points stay below U+110000. -/
lemma toNat_lt (c : Char) : c.toNat < 0x110000 := by
  have := c.valid
  simp only [UInt32.isValidChar, Nat.isValidChar] at this
  change c.val.toNat < 0x110000
  omega

/-- A text is encoded character by character. -/
lemma encode_cons (c : Char) (cs : List Char) :
    encode (c :: cs) = charBytes c.toNat ++ encode cs := by
  have hc := toNat_lt c
  have hbytes : (String.utf8EncodeChar c).map UInt8.toNat = charBytes c.toNat := by
    have hval : c.val.toNat = c.toNat := rfl
    unfold String.utf8EncodeChar charBytes
    simp only [hval]
    split_ifs <;> first | omega | (simp; omega)
  rw [encode, List.flatMap_cons, hbytes, encode]

/-! ### One byte of a pending character -/

section Pending

variable {position low high bits : Nat} {before bytes : List Nat} {cs : List Char}

/-- The last byte of a pending character completes it. -/
lemma decodeFrom_last :
    decodeFrom position (some ⟨before, 1, low, high, bits⟩) bytes = .ok cs ↔
      ∃ b rest more, bytes = b :: rest ∧ low ≤ b ∧ b < high ∧
        decodeFrom (position + 1) none rest = .ok more ∧
        cs = Char.ofNat (bits * 64 + b % 64) :: more := by
  cases bytes with
  | nil => simp [decodeFrom]
  | cons b rest =>
    rw [decodeFrom]
    by_cases hb : low ≤ b ∧ b < high
    · cases hmore : decodeFrom (position + 1) none rest <;> simp [hb, hmore, Except.map, eq_comm]
    · rw [if_neg hb]
      simp only [reduceCtorEq, List.cons.injEq, false_iff, not_exists]
      rintro _ _ _ ⟨⟨rfl, -⟩, hlow, hhigh, -⟩
      exact hb ⟨hlow, hhigh⟩

/-- A byte that is not the last one leaves the character pending. -/
lemma decodeFrom_next {missing : Nat} :
    decodeFrom position (some ⟨before, missing + 2, low, high, bits⟩) bytes = .ok cs ↔
      ∃ b rest, bytes = b :: rest ∧ low ≤ b ∧ b < high ∧
        decodeFrom (position + 1)
          (some ⟨before ++ [b], missing + 1, 0x80, 0xC0, bits * 64 + b % 64⟩) rest = .ok cs := by
  cases bytes with
  | nil => simp [decodeFrom]
  | cons b rest =>
    rw [decodeFrom]
    by_cases hb : low ≤ b ∧ b < high
    · simp [hb]
    · rw [if_neg hb]
      simp only [reduceCtorEq, List.cons.injEq, false_iff, not_exists]
      rintro _ _ ⟨⟨rfl, -⟩, hlow, hhigh, -⟩
      exact hb ⟨hlow, hhigh⟩

end Pending

/-! ### Whole characters -/

/-- The first byte tells how many bytes the character has, and which second bytes it may have. -/
lemma shape?_eq_some_iff {b length low high : Nat} :
    shape? b = some (length, low, high) ↔
      (length = 2 ∧ 0xC2 ≤ b ∧ b < 0xE0 ∧ low = 0x80 ∧ high = 0xC0) ∨
      (length = 3 ∧ 0xE0 ≤ b ∧ b < 0xF0 ∧ low = (if b = 0xE0 then 0xA0 else 0x80) ∧
        high = if b = 0xED then 0xA0 else 0xC0) ∨
      (length = 4 ∧ 0xF0 ≤ b ∧ b < 0xF5 ∧ low = (if b = 0xF0 then 0x90 else 0x80) ∧
        high = if b = 0xF4 then 0x90 else 0xC0) := by
  unfold shape?
  split_ifs <;> simp only [Option.some.injEq, Prod.mk.injEq, false_iff] <;> omega

/-- A first byte outside of ASCII sets what the next byte may be and how many are to follow. -/
lemma decodeFrom_lead {position b : Nat} {rest : List Nat} {cs : List Char} (hb : 0x80 ≤ b) :
    decodeFrom position none (b :: rest) = .ok cs ↔
      ∃ length low high, shape? b = some (length, low, high) ∧
        decodeFrom (position + 1) (some ⟨[b], length - 1, low, high, leadBits length b⟩) rest =
          .ok cs := by
  rw [decodeFrom, if_neg (by omega)]
  cases hshape : shape? b with
  | none => simp
  | some shape =>
    obtain ⟨length, low, high⟩ := shape
    simp

/-- The decoder takes the bytes of a character as the character. -/
lemma decodeFrom_charBytes {n position : Nat} (hn : n.isValidChar) {tail : List Nat}
    {cs : List Char} (h : decodeFrom (position + (charBytes n).length) none tail = .ok cs) :
    decodeFrom position none (charBytes n ++ tail) = .ok (Char.ofNat n :: cs) := by
  rw [Nat.isValidChar] at hn
  unfold charBytes at h ⊢
  split_ifs at h ⊢ with hone htwo hthree
  · rw [List.singleton_append, decodeFrom, if_pos hone]
    simp_all [Except.map]
  · refine (decodeFrom_lead (by omega)).2
      ⟨2, 0x80, 0xC0, shape?_eq_some_iff.2 (.inl (by omega)), ?_⟩
    refine decodeFrom_last.2 ⟨_, _, cs, rfl, by omega, by omega, h, ?_⟩
    have hbits : leadBits 2 (n / 64 + 0xC0) * 64 + (n % 64 + 0x80) % 64 = n := by
      simp only [leadBits]
      omega
    rw [hbits]
  · refine (decodeFrom_lead (by omega)).2
      ⟨3, _, _, shape?_eq_some_iff.2 (.inr (.inl ⟨rfl, by omega, by omega, rfl, rfl⟩)), ?_⟩
    refine decodeFrom_next.2 ⟨_, _, rfl, by split_ifs <;> omega, by split_ifs <;> omega, ?_⟩
    refine decodeFrom_last.2 ⟨_, _, cs, rfl, by omega, by omega, h, ?_⟩
    have hbits : (leadBits 3 (n / 4096 + 0xE0) * 64 + (n / 64 % 64 + 0x80) % 64) * 64 +
        (n % 64 + 0x80) % 64 = n := by
      simp only [leadBits]
      omega
    rw [hbits]
  · refine (decodeFrom_lead (by omega)).2
      ⟨4, _, _, shape?_eq_some_iff.2 (.inr (.inr ⟨rfl, by omega, by omega, rfl, rfl⟩)), ?_⟩
    refine decodeFrom_next.2 ⟨_, _, rfl, by split_ifs <;> omega, by split_ifs <;> omega, ?_⟩
    refine decodeFrom_next.2 ⟨_, _, rfl, by omega, by omega, ?_⟩
    refine decodeFrom_last.2 ⟨_, _, cs, rfl, by omega, by omega, h, ?_⟩
    have hbits : ((leadBits 4 (n / 262144 + 0xF0) * 64 + (n / 4096 % 64 + 0x80) % 64) * 64 +
        (n / 64 % 64 + 0x80) % 64) * 64 + (n % 64 + 0x80) % 64 = n := by
      simp only [leadBits]
      omega
    rw [hbits]

/-- The first byte of two and a byte in its range are the bytes of a character. -/
lemma charBytes_two {a b : Nat} (ha : 0xC2 ≤ a ∧ a < 0xE0) (hb : 0x80 ≤ b ∧ b < 0xC0) :
    (a % 32 * 64 + b % 64).isValidChar ∧ charBytes (a % 32 * 64 + b % 64) = [a, b] := by
  refine ⟨.inl (by omega), ?_⟩
  rw [charBytes, if_neg (by omega), if_pos (by omega)]
  simp only [List.cons.injEq, and_true]
  omega

/-- Three bytes within the bounds of their first one are the bytes of a code point. -/
lemma charBytes_three {a b c : Nat} (ha : 0xE0 ≤ a ∧ a < 0xF0)
    (hlow : (if a = 0xE0 then 0xA0 else 0x80) ≤ b) (hhigh : b < if a = 0xED then 0xA0 else 0xC0)
    (hc : 0x80 ≤ c ∧ c < 0xC0) :
    ((a % 16 * 64 + b % 64) * 64 + c % 64).isValidChar ∧
      charBytes ((a % 16 * 64 + b % 64) * 64 + c % 64) = [a, b, c] := by
  have hb : (a = 0xE0 → 0xA0 ≤ b) ∧ 0x80 ≤ b ∧ (a = 0xED → b < 0xA0) ∧ b < 0xC0 := by
    split_ifs at hlow hhigh <;> omega
  refine ⟨by rw [Nat.isValidChar]; omega, ?_⟩
  rw [charBytes, if_neg (by omega), if_neg (by omega), if_pos (by omega)]
  simp only [List.cons.injEq, and_true]
  omega

/-- Four bytes within the bounds of their first one are the bytes of a code point. -/
lemma charBytes_four {a b c d : Nat} (ha : 0xF0 ≤ a ∧ a < 0xF5)
    (hlow : (if a = 0xF0 then 0x90 else 0x80) ≤ b) (hhigh : b < if a = 0xF4 then 0x90 else 0xC0)
    (hc : 0x80 ≤ c ∧ c < 0xC0) (hd : 0x80 ≤ d ∧ d < 0xC0) :
    (((a % 8 * 64 + b % 64) * 64 + c % 64) * 64 + d % 64).isValidChar ∧
      charBytes (((a % 8 * 64 + b % 64) * 64 + c % 64) * 64 + d % 64) = [a, b, c, d] := by
  have hb : (a = 0xF0 → 0x90 ≤ b) ∧ 0x80 ≤ b ∧ (a = 0xF4 → b < 0x90) ∧ b < 0xC0 := by
    split_ifs at hlow hhigh <;> omega
  refine ⟨by rw [Nat.isValidChar]; omega, ?_⟩
  rw [charBytes, if_neg (by omega), if_neg (by omega), if_neg (by omega)]
  simp only [List.cons.injEq, and_true]
  omega

/-- Bytes that are decoded start with the bytes of the first character. -/
lemma exists_charBytes {position b : Nat} {rest : List Nat} {cs : List Char}
    (h : decodeFrom position none (b :: rest) = .ok cs) :
    ∃ n tail more, n.isValidChar ∧ b :: rest = charBytes n ++ tail ∧
      decodeFrom (position + (charBytes n).length) none tail = .ok more ∧
      cs = Char.ofNat n :: more := by
  by_cases hb : b < 0x80
  · rw [decodeFrom, if_pos hb] at h
    cases hmore : decodeFrom (position + 1) none rest with
    | error fault => simp [hmore, Except.map] at h
    | ok more =>
      have hbytes : charBytes b = [b] := if_pos hb
      refine ⟨b, rest, more, .inl (by omega), by rw [hbytes]; rfl, by rw [hbytes]; exact hmore, ?_⟩
      simpa [hmore, Except.map, eq_comm] using h
  obtain ⟨length, low, high, hshape, h⟩ := (decodeFrom_lead (Nat.le_of_not_lt hb)).1 h
  rcases shape?_eq_some_iff.1 hshape with
    ⟨rfl, hleast, hmost, rfl, rfl⟩ | ⟨rfl, hleast, hmost, rfl, rfl⟩ | ⟨rfl, hleast, hmost, rfl, rfl⟩
  · obtain ⟨c, tail, more, rfl, hlow, hhigh, hmore, rfl⟩ := decodeFrom_last.1 h
    obtain ⟨hvalid, hbytes⟩ := charBytes_two ⟨hleast, hmost⟩ ⟨hlow, hhigh⟩
    exact ⟨_, tail, more, hvalid, by rw [hbytes]; rfl, by rw [hbytes]; exact hmore, rfl⟩
  · obtain ⟨c, _, rfl, hlow, hhigh, h⟩ := decodeFrom_next.1 h
    obtain ⟨d, tail, more, rfl, hd, hd', hmore, rfl⟩ := decodeFrom_last.1 h
    obtain ⟨hvalid, hbytes⟩ := charBytes_three ⟨hleast, hmost⟩ hlow hhigh ⟨hd, hd'⟩
    exact ⟨_, tail, more, hvalid, by rw [hbytes]; rfl, by rw [hbytes]; exact hmore, rfl⟩
  · obtain ⟨c, _, rfl, hlow, hhigh, h⟩ := decodeFrom_next.1 h
    obtain ⟨d, _, rfl, hd, hd', h⟩ := decodeFrom_next.1 h
    obtain ⟨e, tail, more, rfl, he, he', hmore, rfl⟩ := decodeFrom_last.1 h
    obtain ⟨hvalid, hbytes⟩ := charBytes_four ⟨hleast, hmost⟩ hlow hhigh ⟨hd, hd'⟩ ⟨he, he'⟩
    exact ⟨_, tail, more, hvalid, by rw [hbytes]; rfl, by rw [hbytes]; exact hmore, rfl⟩

/-! ### Whole texts -/

/-- Every code point has a byte. -/
lemma charBytes_ne_nil (n : Nat) : charBytes n ≠ [] := by
  unfold charBytes
  split_ifs <;> simp

/-- A code point that is valid is that of its character. -/
lemma toNat_ofNat {n : Nat} (hn : n.isValidChar) : (Char.ofNat n).toNat = n := by
  rw [Char.ofNat, dif_pos hn]
  rfl

/-- What is encoded is decoded to what it was. -/
lemma decodeFrom_encode (cs : List Char) (position : Nat) :
    decodeFrom position none (encode cs) = .ok cs := by
  induction cs generalizing position with
  | nil => rfl
  | cons c cs ih =>
    have hc : c.toNat.isValidChar := c.valid
    rw [encode_cons, decodeFrom_charBytes hc (ih _), Char.ofNat_toNat]

/-- What is decoded was encoded from the result. -/
lemma encode_of_decodeFrom {position : Nat} {data : List Nat} {cs : List Char}
    (h : decodeFrom position none data = .ok cs) : data = encode cs := by
  induction hlength : data.length using Nat.strongRecOn generalizing position data cs with
  | ind length ih =>
    cases data with
    | nil =>
      rw [decodeFrom] at h
      cases h
      rfl
    | cons b rest =>
      obtain ⟨n, tail, more, hn, hdata, hmore, rfl⟩ := exists_charBytes h
      have hfewer : tail.length < length := by
        have := List.length_pos_iff.2 (charBytes_ne_nil n)
        rw [← hlength, hdata, List.length_append]
        omega
      rw [hdata, encode_cons, toNat_ofNat hn, ← ih _ hfewer hmore rfl]

/-- Bytes are decoded to a text exactly if they are the bytes of the text. -/
theorem decode_eq_ok_iff {data : List Nat} {cs : List Char} :
    decode data = .ok cs ↔ data = encode cs := by
  constructor
  · exact encode_of_decodeFrom
  · rintro rfl
    exact decodeFrom_encode cs 0

end PromqlGuide.Utf8
