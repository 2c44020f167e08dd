import Mathlib.Data.List.Basic
import Mathlib.Tactic.IntervalCases

/-! Standard base64 with padding on byte lists. The decoder skips carriage
returns and line feeds and does not look at the bits that padding leaves over,
so several texts decode to one byte string; the encoder writes one of them. -/

namespace Base64

/-- Letter number `n` of the standard alphabet. -/
def encodeChar (n : ℕ) : UInt8 := if n < 26 then UInt8.ofNat (65 + n)
  else if n < 52 then UInt8.ofNat (97 + (n - 26))
  else if n < 62 then UInt8.ofNat (48 + (n - 52))
  else if n = 62 then 43
  else 47

def decodeChar (c : UInt8) : Option ℕ := if 65 ≤ c ∧ c ≤ 90 then some (c.toNat - 65)
  else if 97 ≤ c ∧ c ≤ 122 then some (c.toNat - 97 + 26)
  else if 48 ≤ c ∧ c ≤ 57 then some (c.toNat - 48 + 52)
  else if c = 43 then some 62
  else if c = 47 then some 63
  else none

/-- The padding character. -/
def pad : UInt8 := 61

def encode : List UInt8 → List UInt8
  | [] => []
  | [a] => [encodeChar (a.toNat / 4), encodeChar (a.toNat % 4 * 16), pad, pad]
  | [a, b] =>
      [encodeChar (a.toNat / 4), encodeChar (a.toNat % 4 * 16 + b.toNat / 16),
        encodeChar (b.toNat % 16 * 4), pad]
  | a :: b :: c :: rest =>
      encodeChar (a.toNat / 4) :: encodeChar (a.toNat % 4 * 16 + b.toNat / 16) ::
        encodeChar (b.toNat % 16 * 4 + c.toNat / 64) :: encodeChar (c.toNat % 64) ::
        encode rest

/-- The three bytes that four six-bit groups spell. -/
def byte0 (x y : ℕ) : UInt8 := UInt8.ofNat (x * 4 + y / 16)
def byte1 (y z : ℕ) : UInt8 := UInt8.ofNat (y % 16 * 16 + z / 4)
def byte2 (z w : ℕ) : UInt8 := UInt8.ofNat (z % 4 * 64 + w)

/-- Decode a text of full quanta; padding is accepted in the last one only. -/
def decodeQuanta : List UInt8 → Option (List UInt8)
  | [] => some []
  | a :: b :: c :: d :: rest =>
      match decodeChar a, decodeChar b with
      | some x, some y =>
          if c = pad then
            if d = pad ∧ rest = [] then some [byte0 x y] else none
          else
            match decodeChar c with
            | none => none
            | some z =>
                if d = pad then
                  if rest = [] then some [byte0 x y, byte1 y z] else none
                else
                  match decodeChar d, decodeQuanta rest with
                  | some w, some tail => some (byte0 x y :: byte1 y z :: byte2 z w :: tail)
                  | _, _ => none
      | _, _ => none
  | _ => none

def isNewline (c : UInt8) : Bool := c = 10 || c = 13

def decode (s : List UInt8) : Option (List UInt8) := decodeQuanta (s.filter fun c => !isNewline c)

theorem decodeChar_encodeChar (n : ℕ) (hn : n < 64) : decodeChar (encodeChar n) = some n := by
  interval_cases n <;> rfl

theorem encodeChar_ne_pad (n : ℕ) (hn : n < 64) : encodeChar n ≠ pad := by
  interval_cases n <;> decide

theorem mem_encode (bs : List UInt8) : ∀ c ∈ encode bs, c = pad ∨ ∃ n < 64, c = encodeChar n := by
  induction bs using encode.induct with
  | case1 => simp [encode]
  | case2 a =>
    have ha := a.toNat_lt
    intro c hc
    simp only [encode, List.mem_cons, List.not_mem_nil, or_false] at hc
    rcases hc with rfl | rfl | rfl | rfl
    · exact Or.inr ⟨_, by omega, rfl⟩
    · exact Or.inr ⟨_, by omega, rfl⟩
    · exact Or.inl rfl
    · exact Or.inl rfl
  | case3 a b =>
    have ha := a.toNat_lt
    have hb := b.toNat_lt
    intro c hc
    simp only [encode, List.mem_cons, List.not_mem_nil, or_false] at hc
    rcases hc with rfl | rfl | rfl | rfl
    · exact Or.inr ⟨_, by omega, rfl⟩
    · exact Or.inr ⟨_, by omega, rfl⟩
    · exact Or.inr ⟨_, by omega, rfl⟩
    · exact Or.inl rfl
  | case4 a b c rest ih =>
    have ha := a.toNat_lt
    have hb := b.toNat_lt
    have hc := c.toNat_lt
    intro x hx
    simp only [encode, List.mem_cons] at hx
    rcases hx with rfl | rfl | rfl | rfl | hx
    · exact Or.inr ⟨_, by omega, rfl⟩
    · exact Or.inr ⟨_, by omega, rfl⟩
    · exact Or.inr ⟨_, by omega, rfl⟩
    · exact Or.inr ⟨_, by omega, rfl⟩
    · exact ih x hx

theorem not_mem_encode (bs : List UInt8) (c : UInt8) (hp : c ≠ pad)
    (hc : ∀ n < 64, encodeChar n ≠ c) : c ∉ encode bs := by
  intro hmem
  rcases mem_encode bs c hmem with h | ⟨n, hn, h⟩
  · exact hp h
  · exact hc n hn h.symm

theorem ofNat_eq_of_toNat (a : UInt8) (n : ℕ) (h : n = a.toNat) : UInt8.ofNat n = a := by
  subst h
  exact UInt8.ofNat_toNat

theorem decodeQuanta_encode (bs : List UInt8) : decodeQuanta (encode bs) = some bs := by
  induction bs using encode.induct with
  | case1 => rfl
  | case2 a =>
    have ha := a.toNat_lt
    have h0 : byte0 (a.toNat / 4) (a.toNat % 4 * 16) = a := ofNat_eq_of_toNat _ _ (by omega)
    simp only [encode, decodeQuanta]
    rw [decodeChar_encodeChar _ (by omega), decodeChar_encodeChar _ (by omega)]
    simp [h0]
  | case3 a b =>
    have ha := a.toNat_lt
    have hb := b.toNat_lt
    have h0 : byte0 (a.toNat / 4) (a.toNat % 4 * 16 + b.toNat / 16) = a :=
      ofNat_eq_of_toNat _ _ (by omega)
    have h1 : byte1 (a.toNat % 4 * 16 + b.toNat / 16) (b.toNat % 16 * 4) = b :=
      ofNat_eq_of_toNat _ _ (by omega)
    simp only [encode, decodeQuanta]
    rw [decodeChar_encodeChar _ (by omega), decodeChar_encodeChar _ (by omega),
      decodeChar_encodeChar _ (by omega)]
    simp [h0, h1, encodeChar_ne_pad (b.toNat % 16 * 4) (by omega)]
  | case4 a b c rest ih =>
    have ha := a.toNat_lt
    have hb := b.toNat_lt
    have hc := c.toNat_lt
    have h0 : byte0 (a.toNat / 4) (a.toNat % 4 * 16 + b.toNat / 16) = a :=
      ofNat_eq_of_toNat _ _ (by omega)
    have h1 : byte1 (a.toNat % 4 * 16 + b.toNat / 16) (b.toNat % 16 * 4 + c.toNat / 64) = b :=
      ofNat_eq_of_toNat _ _ (by omega)
    have h2 : byte2 (b.toNat % 16 * 4 + c.toNat / 64) (c.toNat % 64) = c :=
      ofNat_eq_of_toNat _ _ (by omega)
    simp only [encode, decodeQuanta]
    rw [decodeChar_encodeChar _ (by omega), decodeChar_encodeChar _ (by omega),
      decodeChar_encodeChar _ (by omega), decodeChar_encodeChar _ (by omega), ih]
    simp [h0, h1, h2, encodeChar_ne_pad (b.toNat % 16 * 4 + c.toNat / 64) (by omega),
      encodeChar_ne_pad (c.toNat % 64) (by omega)]

/-- Decoding undoes encoding, for every length and so for every padding. -/
theorem decode_encode (bs : List UInt8) : decode (encode bs) = some bs := by
  have hnl : ∀ c ∈ encode bs, (!isNewline c) = true := by
    intro c hc
    rcases mem_encode bs c hc with rfl | ⟨n, hn, rfl⟩
    · rfl
    · interval_cases n <;> rfl
  rw [decode, List.filter_eq_self.mpr hnl, decodeQuanta_encode]

end Base64
