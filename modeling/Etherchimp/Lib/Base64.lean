import Mathlib.Data.List.Basic

/-!
# Base64

The standard alphabet with padding: three bytes in four characters, the last group filled
up with `=`. A reader of such a text needs the padding only to know where it ends.
-/

namespace Base64

def alphabet : List Char :=
  "ABCDEFGHIJKLMNOPQRSTUVWXYZabcdefghijklmnopqrstuvwxyz0123456789+/".toList

/-- The character of six bits. -/
def digit (n : Nat) : Char := alphabet.getD n '='

/-- The six bits of a character. -/
def value (c : Char) : Nat := alphabet.idxOf c

def encode : List UInt8 → List Char
  | a :: b :: c :: rest =>
      digit (a.toNat / 4) :: digit (a.toNat % 4 * 16 + b.toNat / 16)
        :: digit (b.toNat % 16 * 4 + c.toNat / 64) :: digit (c.toNat % 64) :: encode rest
  | [a, b] =>
      [digit (a.toNat / 4), digit (a.toNat % 4 * 16 + b.toNat / 16), digit (b.toNat % 16 * 4), '=']
  | [a] => [digit (a.toNat / 4), digit (a.toNat % 4 * 16), '=', '=']
  | [] => []

def decode : List Char → List UInt8
  | w :: x :: y :: z :: rest =>
      let first := UInt8.ofNat (value w * 4 + value x / 16)
      let second := UInt8.ofNat (value x % 16 * 16 + value y / 4)
      let third := UInt8.ofNat (value y % 4 * 64 + value z)
      if y = '=' then [first]
      else if z = '=' then [first, second]
      else first :: second :: third :: decode rest
  | _ => []

theorem value_digit : ∀ n < 64, value (digit n) = n := by decide +kernel

theorem digit_ne_pad : ∀ n < 64, digit n ≠ '=' := by decide +kernel

/-- A byte from its number. -/
theorem ofNat_eq {a : UInt8} {n : Nat} (h : n = a.toNat) : UInt8.ofNat n = a := by
  rw [h, UInt8.ofNat_toNat]

/-- Decoding undoes encoding. -/
theorem decode_encode (data : List UInt8) : decode (encode data) = data := by
  induction data using encode.induct with
  | case1 a b c rest ih =>
    have ha := a.toNat_lt
    have hb := b.toNat_lt
    have hc := c.toNat_lt
    rw [encode, decode, value_digit _ (by omega), value_digit _ (by omega),
      value_digit _ (by omega), value_digit _ (by omega)]
    rw [if_neg (digit_ne_pad _ (by omega)), if_neg (digit_ne_pad _ (by omega)),
      ofNat_eq (a := a) (by omega), ofNat_eq (a := b) (by omega), ofNat_eq (a := c) (by omega), ih]
  | case2 a b =>
    have ha := a.toNat_lt
    have hb := b.toNat_lt
    rw [encode, decode, value_digit _ (by omega), value_digit _ (by omega),
      value_digit _ (by omega)]
    rw [if_neg (digit_ne_pad _ (by omega)), if_pos rfl, ofNat_eq (a := a) (by omega),
      ofNat_eq (a := b) (by omega)]
  | case3 a =>
    have ha := a.toNat_lt
    rw [encode, decode, value_digit _ (by omega), value_digit _ (by omega)]
    rw [if_pos rfl, ofNat_eq (a := a) (by omega)]
  | case4 => rfl

end Base64
