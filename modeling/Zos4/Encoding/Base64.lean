/-!
# Standard base64

The encoding with padding, as Go's `base64.StdEncoding` has it: three bytes are four
characters, what is left over is filled up with `=`, and a decoder passes over line breaks
and does not ask that the bits that are left be zero.

`decode_of_encode` is the round trip, which does not mind line breaks put anywhere.
-/

namespace Zos4.Base64

/-! ## Characters -/

def alphabet : List Char :=
  "ABCDEFGHIJKLMNOPQRSTUVWXYZabcdefghijklmnopqrstuvwxyz0123456789+/".toList

/-- The character of six bits. -/
def encodeChar (n : Nat) : Char := alphabet.getD n 'A'

def decodeChar (c : Char) : Option Nat := alphabet.idxOf? c

theorem decodeChar_encodeChar {n : Nat} (h : n < 64) :
    decodeChar (encodeChar n) = some n := by
  have hall : ∀ m : Fin 64, decodeChar (encodeChar m) = some m.val := by decide +kernel
  exact hall ⟨n, h⟩

/-- The padding is not in the alphabet. -/
theorem encodeChar_plain (n : Nat) : encodeChar n ≠ '=' := by
  by_cases h : n < 64
  · have hall : ∀ m : Fin 64, encodeChar m ≠ '=' := by decide +kernel
    exact hall ⟨n, h⟩
  · have hlength : alphabet.length = 64 := by decide
    have hdefault : encodeChar n = 'A' := by
      rw [encodeChar, List.getD_eq_getElem?_getD, List.getElem?_eq_none (by omega)]
      rfl
    rw [hdefault]
    decide

/-! ## Groups -/

/-- Three bytes as one number, and back. -/
def group (a b c : UInt8) : Nat := a.toNat * 65536 + b.toNat * 256 + c.toNat

def bytesOf (v : Nat) : List UInt8 :=
  [UInt8.ofNat (v / 65536), UInt8.ofNat (v / 256 % 256), UInt8.ofNat (v % 256)]

/-- The characters of a group. -/
def charsOf (v : Nat) : List Char :=
  [encodeChar (v / 262144), encodeChar (v / 4096 % 64), encodeChar (v / 64 % 64),
    encodeChar (v % 64)]

def encodeChars : List UInt8 → List Char
  | [] => []
  | [a] => (charsOf (group a 0 0)).take 2 ++ ['=', '=']
  | [a, b] => (charsOf (group a b 0)).take 3 ++ ['=']
  | a :: b :: c :: rest => charsOf (group a b c) ++ encodeChars rest

/-- The number four characters stand for. -/
def valueOf (p q r s : Nat) : Nat := p * 262144 + q * 4096 + r * 64 + s

def decodeChars : List Char → Option (List UInt8)
  | [] => some []
  | p :: q :: r :: s :: rest =>
      if r = '=' ∧ s = '=' ∧ rest = [] then do
        let v := valueOf (← decodeChar p) (← decodeChar q) 0 0
        some ((bytesOf v).take 1)
      else if s = '=' ∧ rest = [] then do
        let v := valueOf (← decodeChar p) (← decodeChar q) (← decodeChar r) 0
        some ((bytesOf v).take 2)
      else do
        let v := valueOf (← decodeChar p) (← decodeChar q) (← decodeChar r) (← decodeChar s)
        return bytesOf v ++ (← decodeChars rest)
  | _ => none

theorem group_lt (a b c : UInt8) : group a b c < 16777216 := by
  have ha := a.toNat_lt
  have hb := b.toNat_lt
  have hc := c.toNat_lt
  rw [group]
  omega

theorem bytesOf_group (a b c : UInt8) : bytesOf (group a b c) = [a, b, c] := by
  have ha := a.toNat_lt
  have hb := b.toNat_lt
  have hc := c.toNat_lt
  have h₁ : group a b c / 65536 = a.toNat := by rw [group]; omega
  have h₂ : group a b c / 256 % 256 = b.toNat := by rw [group]; omega
  have h₃ : group a b c % 256 = c.toNat := by rw [group]; omega
  rw [bytesOf, h₁, h₂, h₃]
  simp

/-- The four digits of a group, decoded. -/
theorem digits {v : Nat} (h : v < 16777216) :
    decodeChar (encodeChar (v / 262144)) = some (v / 262144) ∧
    decodeChar (encodeChar (v / 4096 % 64)) = some (v / 4096 % 64) ∧
    decodeChar (encodeChar (v / 64 % 64)) = some (v / 64 % 64) ∧
    decodeChar (encodeChar (v % 64)) = some (v % 64) ∧
    valueOf (v / 262144) (v / 4096 % 64) (v / 64 % 64) (v % 64) = v := by
  refine ⟨decodeChar_encodeChar (by omega), decodeChar_encodeChar (by omega),
    decodeChar_encodeChar (by omega), decodeChar_encodeChar (by omega), ?_⟩
  rw [valueOf]
  omega

theorem decodeChars_encodeChars (bs : List UInt8) :
    decodeChars (encodeChars bs) = some bs := by
  induction bs using encodeChars.induct with
  | case1 => rfl
  | case2 a =>
      obtain ⟨hp, hq, hr, hs, hv⟩ := digits (group_lt a 0 0)
      have hlow : group a 0 0 / 64 % 64 = 0 ∧ group a 0 0 % 64 = 0 := by
        rw [group]
        simp only [UInt8.toNat_zero]
        omega
      rw [hlow.1, hlow.2] at hv
      show decodeChars [_, _, '=', '='] = _
      simp [decodeChars, hp, hq, hv, bytesOf_group]
  | case3 a b =>
      obtain ⟨hp, hq, hr, hs, hv⟩ := digits (group_lt a b 0)
      have hlow : group a b 0 % 64 = 0 := by
        rw [group]
        simp only [UInt8.toNat_zero]
        omega
      rw [hlow] at hv
      have hplain := encodeChar_plain (group a b 0 / 64 % 64)
      show decodeChars [_, _, _, '='] = _
      simp [decodeChars, hp, hq, hr, hv, hplain, bytesOf_group]
  | case4 a b c rest ih =>
      obtain ⟨hp, hq, hr, hs, hv⟩ := digits (group_lt a b c)
      have hplain := encodeChar_plain (group a b c % 64)
      show decodeChars (_ :: _ :: _ :: _ :: encodeChars rest) = _
      simp [decodeChars, hp, hq, hr, hs, hv, hplain, bytesOf_group, ih]

/-! ## Texts -/

def isBreak (c : Char) : Bool := c == '\n' || c == '\r'

def decode (s : String) : Option (List UInt8) :=
  decodeChars (s.toList.filter fun c => !isBreak c)

/-- A text that is the encoding up to line breaks decodes to what was encoded. -/
theorem decode_of_encode {bs : List UInt8} {s : String}
    (h : (s.toList.filter fun c => !isBreak c) = encodeChars bs) : decode s = some bs := by
  rw [decode, h, decodeChars_encodeChars]

end Zos4.Base64
