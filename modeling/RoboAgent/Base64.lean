import Mathlib

/-! The standard alphabet of base64 with padding. Every three bytes become four characters, so the
round trip is one step for each shape of the last group. -/

namespace RoboAgent.Base64

def alphabet : List Char :=
  "ABCDEFGHIJKLMNOPQRSTUVWXYZabcdefghijklmnopqrstuvwxyz0123456789+/".toList

def digit (n : Nat) : Char := alphabet.getD n '='

def value (c : Char) : Option Nat := alphabet.idxOf? c

theorem alphabet_eq : alphabet = [
      'A', 'B', 'C', 'D', 'E', 'F', 'G', 'H', 'I', 'J', 'K', 'L', 'M', 'N', 'O', 'P',
      'Q', 'R', 'S', 'T', 'U', 'V', 'W', 'X', 'Y', 'Z', 'a', 'b', 'c', 'd', 'e', 'f',
      'g', 'h', 'i', 'j', 'k', 'l', 'm', 'n', 'o', 'p', 'q', 'r', 's', 't', 'u', 'v',
      'w', 'x', 'y', 'z', '0', '1', '2', '3', '4', '5', '6', '7', '8', '9', '+', '/'] :=
  (congrArg String.toList rfl).trans String.toList_ofList

theorem value_digit : ∀ n < 64, value (digit n) = some n := by
  unfold value digit
  rw [alphabet_eq]
  decide +kernel

theorem value_pad : value '=' = none := by
  rw [value, alphabet_eq]
  decide +kernel

def encodeChars : List UInt8 → List Char
  | [] => []
  | [a] => [digit (a.toNat / 4), digit (a.toNat % 4 * 16), '=', '=']
  | [a, b] =>
    [digit (a.toNat / 4), digit (a.toNat % 4 * 16 + b.toNat / 16), digit (b.toNat % 16 * 4), '=']
  | a :: b :: c :: rest =>
    digit (a.toNat / 4) :: digit (a.toNat % 4 * 16 + b.toNat / 16) ::
      digit (b.toNat % 16 * 4 + c.toNat / 64) :: digit (c.toNat % 64) :: encodeChars rest

/-- What is left of a last group after its whole bytes is not looked at. -/
def decodeChars : List Char → Option (List UInt8)
  | [] => some []
  | a :: b :: c :: d :: rest =>
    match value a, value b, value c, value d with
    | some x, some y, some z, some w =>
      (decodeChars rest).map fun bytes =>
        .ofNat (x * 4 + y / 16) :: .ofNat (y % 16 * 16 + z / 4) :: .ofNat (z % 4 * 64 + w) :: bytes
    | some x, some y, some z, none =>
      if d = '=' ∧ rest = [] then
        some [.ofNat (x * 4 + y / 16), .ofNat (y % 16 * 16 + z / 4)]
      else none
    | some x, some y, none, none =>
      if c = '=' ∧ d = '=' ∧ rest = [] then some [.ofNat (x * 4 + y / 16)] else none
    | _, _, _, _ => none
  | _ => none

def encode (data : List UInt8) : String := String.ofList (encodeChars data)

def decode (text : String) : Option (List UInt8) := decodeChars text.toList

theorem ofNat_eq {n : Nat} {a : UInt8} (h : n = a.toNat) : UInt8.ofNat n = a := by
  rw [h, UInt8.ofNat_toNat]

theorem decodeChars_encodeChars (data : List UInt8) :
    decodeChars (encodeChars data) = some data := by
  induction data using encodeChars.induct with
  | case1 => rfl
  | case2 a =>
    have small := a.toNat_lt
    have first : a.toNat / 4 * 4 + a.toNat % 4 * 16 / 16 = a.toNat := by omega
    rw [encodeChars, decodeChars, value_digit _ (by omega), value_digit _ (by omega), value_pad]
    simp only [ofNat_eq first, and_self, if_true]
  | case3 a b =>
    have small := a.toNat_lt
    have small' := b.toNat_lt
    have first : a.toNat / 4 * 4 + (a.toNat % 4 * 16 + b.toNat / 16) / 16 = a.toNat := by omega
    have second : (a.toNat % 4 * 16 + b.toNat / 16) % 16 * 16 + b.toNat % 16 * 4 / 4 =
        b.toNat := by omega
    rw [encodeChars, decodeChars, value_digit _ (by omega), value_digit _ (by omega),
      value_digit _ (by omega), value_pad]
    simp only [ofNat_eq first, ofNat_eq second, and_self, if_true]
  | case4 a b c rest ih =>
    have small := a.toNat_lt
    have small' := b.toNat_lt
    have small'' := c.toNat_lt
    have first : a.toNat / 4 * 4 + (a.toNat % 4 * 16 + b.toNat / 16) / 16 = a.toNat := by omega
    have second : (a.toNat % 4 * 16 + b.toNat / 16) % 16 * 16 +
        (b.toNat % 16 * 4 + c.toNat / 64) / 4 = b.toNat := by omega
    have third : (b.toNat % 16 * 4 + c.toNat / 64) % 4 * 64 + c.toNat % 64 = c.toNat := by omega
    rw [encodeChars, decodeChars, value_digit _ (by omega), value_digit _ (by omega),
      value_digit _ (by omega), value_digit _ (by omega), ih]
    simp only [ofNat_eq first, ofNat_eq second, ofNat_eq third, Option.map_some]

theorem decode_encoded (data : List UInt8) : decode (encode data) = some data := by
  rw [decode, encode, String.toList_ofList, decodeChars_encodeChars]

example : encode [104, 105] = "aGk=" := by decide

end RoboAgent.Base64
