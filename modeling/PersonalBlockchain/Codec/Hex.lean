import Mathlib.Data.List.Basic
import Mathlib.Tactic.Common

/-!
# Personal blockchain — hexadecimal text

`hexToBytes` and `bytesToHex` of `namespace crypto`, on the bytes of a
`std::string`. Each pair of characters is read through a stream of its own, which
skips blanks, takes a sign, stops at the first character that is no digit and
stores 0 where there is none; nobody looks whether the read succeeded. Only an
odd length throws.

## Results

* `hexToBytes_bytesToHex` — what is written comes back;
* `bytesToHex_readPairs` — what is read from digits comes back in lower case;
* `hex_codec_exact_iff` — on which strings the decoder does what it should;
* `verify_respelled` — a signature can be written in more than one way.
-/

namespace PersonalBlockchain

namespace Hex

/-- `std::isspace` of a byte. -/
def isSpace (c : UInt8) : Bool := c = 0x20 || (0x09 ≤ c && c ≤ 0x0D)

/-- `std::isxdigit`: the digits of either case. -/
def isHexDigit (c : UInt8) : Bool :=
  (0x30 ≤ c && c ≤ 0x39) || (0x41 ≤ c && c ≤ 0x46) || (0x61 ≤ c && c ≤ 0x66)

/-- The value of a digit, by its range. -/
def digitValue (c : UInt8) : UInt32 :=
  if c ≤ 0x39 then c.toUInt32 - 0x30
  else if c ≤ 0x46 then c.toUInt32 - 0x37
  else c.toUInt32 - 0x57

/-- A sign in front of a number, if there is one: whether it is a minus, and
what comes behind it. -/
def takeSign : List UInt8 → Bool × List UInt8
  | 0x2D :: rest => (true, rest)
  | 0x2B :: rest => (false, rest)
  | text => (false, text)

/-- The `0x` that a hexadecimal number may begin with. -/
def dropPrefix : List UInt8 → List UInt8
  | 0x30 :: 0x78 :: rest => rest
  | 0x30 :: 0x58 :: rest => rest
  | text => text

/-- `ss >> byte` with `std::hex`, of a text that is too short to overflow. A text
of blanks stores nothing, and `byte` has what was there before. -/
def extract (stale : UInt32) (text : List UInt8) : UInt32 :=
  match text.dropWhile isSpace with
  | [] => stale
  | c :: rest =>
    let (negative, field) := takeSign (c :: rest)
    let digits := (dropPrefix field).takeWhile isHexDigit
    let value := digits.foldl (fun n d => n * 16 + digitValue d) 0
    if negative then -value else value

/-- The loop of `hexToBytes`. `stale` is what `byte`, which is not initialized,
has at each turn. -/
def readPairs (stale : Nat → UInt32) : List UInt8 → List UInt8
  | a :: b :: rest =>
    (extract (stale 0) [a, b]).toUInt8 :: readPairs (fun i => stale (i + 1)) rest
  | _ => []

/-- `hexToBytes`; `none` is the exception for an odd length, and nothing else
throws. -/
def hexToBytes (stale : Nat → UInt32) (hex : List UInt8) : Option (List UInt8) :=
  if hex.length % 2 ≠ 0 then none else some (readPairs stale hex)

/-- `<< std::hex << std::setw(2) << std::setfill('0')`. -/
def hexPair (b : UInt8) : List UInt8 :=
  ((Nat.toDigits 16 b.toNat).leftpad 2 '0').map fun c => UInt8.ofNat c.toNat

/-- `bytesToHex`: two small digits for each byte. -/
def bytesToHex (bytes : List UInt8) : List UInt8 := bytes.flatMap hexPair

/-- `std::tolower`. -/
def toLower (c : UInt8) : UInt8 := if 0x41 ≤ c ∧ c ≤ 0x5A then c + 0x20 else c

/-! ## One pair -/

/-- A property of bytes, by trying them all. -/
theorem forall_byte {P : UInt8 → Prop} (h : ∀ n < 256, P (UInt8.ofNat n)) (b : UInt8) : P b := by
  have hb := h b.toNat b.toNat_lt
  rwa [UInt8.ofNat_toNat] at hb

theorem digitValue_lt : ∀ c, isHexDigit c = true → digitValue c < 16 :=
  forall_byte (by decide +kernel)

theorem isSpace_digit : ∀ c, isHexDigit c = true → isSpace c = false :=
  forall_byte (by decide +kernel)

/-- A digit is no sign. -/
theorem takeSign_digit {c : UInt8} {rest : List UInt8} (hc : isHexDigit c = true) :
    takeSign (c :: rest) = (false, c :: rest) := by
  unfold takeSign
  split
  next heq => cases heq; cases hc
  next heq => cases heq; cases hc
  next => rfl

/-- Two digits are read as their number. -/
theorem extract_digits (stale : UInt32) {a b : UInt8} (ha : isHexDigit a = true)
    (hb : isHexDigit b = true) : extract stale [a, b] = digitValue a * 16 + digitValue b := by
  -- an `x` is no digit
  have hprefix : dropPrefix [a, b] = [a, b] := by
    unfold dropPrefix
    split
    next heq => cases heq; cases hb
    next heq => cases heq; cases hb
    next => rfl
  rw [extract, List.dropWhile_cons_of_neg (by simp [isSpace_digit a ha])]
  simp only [takeSign_digit ha, hprefix, List.takeWhile_cons, ha, hb, if_true, List.takeWhile_nil]
  simp

/-- The digit of a number below 16, in lower case. -/
def digitByte (n : Nat) : UInt8 := UInt8.ofNat (Nat.digitChar n).toNat

theorem isHexDigit_digitByte : ∀ n < 16, isHexDigit (digitByte n) = true := by decide +kernel

theorem digitValue_digitByte : ∀ n < 16, digitValue (digitByte n) = UInt32.ofNat n := by
  decide +kernel

/-- The digit of the value of a digit is that digit in lower case. -/
theorem digitByte_digitValue :
    ∀ c, isHexDigit c = true → digitByte (digitValue c).toNat = toLower c :=
  forall_byte (by decide +kernel)

/-- A byte is written as its halves, the high one first. -/
theorem hexPair_eq : ∀ b, hexPair b = [digitByte (b.toNat / 16), digitByte (b.toNat % 16)] :=
  forall_byte (by decide +kernel)

/-- What is written of a byte is read as that byte, whatever `byte` had before. -/
theorem extract_hexPair (stale : UInt32) (b : UInt8) :
    (extract stale (hexPair b)).toUInt8 = b := by
  have hb := b.toNat_lt
  have hhigh : b.toNat / 16 < 16 := by omega
  have hlow : b.toNat % 16 < 16 := by omega
  rw [hexPair_eq, extract_digits stale (isHexDigit_digitByte _ hhigh) (isHexDigit_digitByte _ hlow),
    digitValue_digitByte _ hhigh, digitValue_digitByte _ hlow]
  -- no carry: 16 times the one half and the other
  apply UInt8.toNat_inj.mp
  simp only [UInt32.toNat_toUInt8, UInt32.toNat_add, UInt32.toNat_mul, UInt32.toNat_ofNat,
    UInt32.toNat_ofNat']
  omega

/-- What is read of two digits is written as those digits, in lower case. -/
theorem hexPair_extract (stale : UInt32) {a b : UInt8} (ha : isHexDigit a = true)
    (hb : isHexDigit b = true) :
    hexPair (extract stale [a, b]).toUInt8 = [toLower a, toLower b] := by
  have hva : (digitValue a).toNat < 16 := digitValue_lt a ha
  have hvb : (digitValue b).toNat < 16 := digitValue_lt b hb
  have hvalue : (extract stale [a, b]).toUInt8.toNat =
      (digitValue a).toNat * 16 + (digitValue b).toNat := by
    rw [extract_digits stale ha hb]
    simp only [UInt32.toNat_toUInt8, UInt32.toNat_add, UInt32.toNat_mul, UInt32.toNat_ofNat]
    omega
  -- the two digits are read back from the byte by a division by sixteen
  have hhigh : ((digitValue a).toNat * 16 + (digitValue b).toNat) / 16 = (digitValue a).toNat := by
    omega
  have hlow : ((digitValue a).toNat * 16 + (digitValue b).toNat) % 16 = (digitValue b).toNat := by
    omega
  rw [hexPair_eq, hvalue, hhigh, hlow, digitByte_digitValue a ha, digitByte_digitValue b hb]

/-! ## Whole strings -/

theorem length_bytesToHex (bytes : List UInt8) : (bytesToHex bytes).length = 2 * bytes.length := by
  induction bytes with
  | nil => rfl
  | cons b bytes ih =>
    rw [bytesToHex, List.flatMap_cons, hexPair_eq, List.length_append, ← bytesToHex, ih]
    simp only [List.length_cons, List.length_nil]
    omega

/-- The loop reads back what was written, pair by pair. -/
theorem readPairs_bytesToHex (stale : Nat → UInt32) (bytes : List UInt8) :
    readPairs stale (bytesToHex bytes) = bytes := by
  induction bytes generalizing stale with
  | nil => rfl
  | cons b bytes ih =>
    have hpair := extract_hexPair (stale 0) b
    rw [hexPair_eq] at hpair
    rw [bytesToHex, List.flatMap_cons, hexPair_eq]
    show (extract (stale 0) _).toUInt8 :: readPairs _ (bytesToHex bytes) = b :: bytes
    rw [hpair, ih]

/-- **What is written comes back**: every list of bytes survives the round trip.
-/
theorem hexToBytes_bytesToHex (stale : Nat → UInt32) (bytes : List UInt8) :
    hexToBytes stale (bytesToHex bytes) = some bytes := by
  rw [hexToBytes, if_neg, readPairs_bytesToHex]
  rw [length_bytesToHex]
  omega

/-- A string without a pair in front is empty, or of odd length. -/
theorem eq_nil_of_no_pair {hex : List UInt8} (heven : hex.length % 2 = 0)
    (hnone : ∀ a b rest, hex = a :: b :: rest → False) : hex = [] := by
  cases hex with
  | nil => rfl
  | cons a rest =>
    cases rest with
    | nil => simp at heven
    | cons b rest => exact (hnone a b rest rfl).elim

/-- **What is read comes back in lower case**, as long as it is digits and
evenly many. -/
theorem bytesToHex_readPairs (stale : Nat → UInt32) {hex : List UInt8}
    (heven : hex.length % 2 = 0) (hdigits : ∀ c ∈ hex, isHexDigit c = true) :
    bytesToHex (readPairs stale hex) = hex.map toLower := by
  fun_induction readPairs stale hex with
  | case1 stale a b rest ih =>
    have hrest : rest.length % 2 = 0 := by
      simp only [List.length_cons] at heven
      omega
    rw [bytesToHex, List.flatMap_cons, hexPair_extract (stale 0) (hdigits a (by simp))
      (hdigits b (by simp)), ← bytesToHex, ih hrest fun c hc => hdigits c (by simp [hc])]
    rfl
  -- no pair left, and no odd digit either
  | case2 hex stale hnone =>
    obtain rfl := eq_nil_of_no_pair heven hnone
    rfl

/-- A value comes out exactly for an even number of digits, and it is the one
that is written as the string in lower case. -/
structure DecodesExactly (stale : Nat → UInt32) (hex : List UInt8) : Prop where
  decodes : (hexToBytes stale hex).isSome = true ↔
    hex.length % 2 = 0 ∧ ∀ c ∈ hex, isHexDigit c = true
  back : ∀ bytes, hexToBytes stale hex = some bytes → bytesToHex bytes = hex.map toLower

variable {stale : Nat → UInt32} {hex : List UInt8}

/-- Only the length is checked: a string of even length is decoded whatever is
in it. -/
theorem isSome_hexToBytes : (hexToBytes stale hex).isSome = true ↔ hex.length % 2 = 0 := by
  rw [hexToBytes]
  split
  next hodd => simpa using hodd
  next heven => simpa using heven

/-- A string is decoded as it should be exactly when it is refused for its
length, or is made of digits. -/
theorem decodesExactly_iff :
    DecodesExactly stale hex ↔ hex.length % 2 ≠ 0 ∨ ∀ c ∈ hex, isHexDigit c = true := by
  constructor
  -- an even length is decoded whatever the characters are, so only the digits can make the answer
  -- right
  · intro h
    by_cases heven : hex.length % 2 = 0
    · exact .inr (h.decodes.mp (isSome_hexToBytes.mpr heven)).2
    · exact .inl heven
  · rintro (hodd | hdigits)
    · -- nothing is decoded
      have hnone : hexToBytes stale hex = none := if_pos hodd
      refine ⟨?_, fun bytes hbytes => ?_⟩
      · rw [isSome_hexToBytes]
        exact iff_of_false hodd fun h => hodd h.1
      · rw [hnone] at hbytes
        cases hbytes
    · refine ⟨isSome_hexToBytes.trans (and_iff_left hdigits).symm, fun bytes hbytes => ?_⟩
      have heven : hex.length % 2 = 0 :=
        isSome_hexToBytes.mp (Option.isSome_iff_exists.mpr ⟨bytes, hbytes⟩)
      rw [hexToBytes, if_neg (not_not.mpr heven), Option.some.injEq] at hbytes
      rw [← hbytes, bytesToHex_readPairs stale heven hdigits]

end Hex

open Hex

/-- **The hex codec.** What is written comes back, for all bytes; and a string
is decoded as it should be exactly when its length is odd or all of it are
digits. The strings on which the decoder goes wrong are those of even length
with anything else in them. -/
theorem hex_codec_exact_iff (stale : Nat → UInt32) :
    (∀ bytes, hexToBytes stale (bytesToHex bytes) = some bytes) ∧
      ∀ hex, DecodesExactly stale hex ↔
        hex.length % 2 ≠ 0 ∨ ∀ c ∈ hex, isHexDigit c = true :=
  ⟨hexToBytes_bytesToHex stale, fun _ => decodesExactly_iff⟩

/-- A blank and a digit are a byte: a string that is no hexadecimal text is
decoded, and the byte is written in another way. -/
theorem hex_codec_counterexample :
    ¬ ∀ (stale : Nat → UInt32) (hex : List UInt8), DecodesExactly stale hex := by
  intro h
  have hdigits := (h (fun _ => 0) [0x20, 0x32]).decodes.mp rfl
  exact absurd (hdigits.2 0x20 (by simp)) (by decide)

example : hexToBytes (fun _ => 0) [0x20, 0x32, 0x2B, 0x32, 0x2D, 0x32, 0x32, 0x78, 0x7A, 0x7A] =
    some [2, 2, 254, 2, 0] := by decide +kernel

/-! ## Signatures -/

/-- What `crypto::verify` has from OpenSSL: the digest, in hex, and the check of
a DER signature of it. -/
structure OpenSSL where
  sha256 : List UInt8 → List UInt8
  ecdsaVerify : (hash signature publicKeyHex : List UInt8) → Bool

/-- `crypto::verify`; what is thrown is `false`. -/
def OpenSSL.verify (O : OpenSSL) (stale stale' : Nat → UInt32)
    (message signatureHex publicKeyHex : List UInt8) : Bool :=
  match hexToBytes stale (O.sha256 message) with
  | none => false
  | some hash =>
    match hexToBytes stale' signatureHex with
    | none => false
    | some signature => O.ecdsaVerify hash signature publicKeyHex

namespace Hex

/-- Behind evenly many characters the loop goes on by itself. -/
theorem readPairs_append (stale : Nat → UInt32) {front : List UInt8}
    (heven : front.length % 2 = 0) (rest : List UInt8) :
    readPairs stale (front ++ rest) =
      readPairs stale front ++ readPairs (fun i => stale (i + front.length / 2)) rest := by
  -- an even front ends between two pairs; the pair after it is the one with its number
  fun_induction readPairs stale front with
  | case1 stale a b front ih =>
    have hfront : front.length % 2 = 0 := by
      simp only [List.length_cons] at heven
      omega
    have hhalf : (a :: b :: front).length / 2 = front.length / 2 + 1 := by
      simp only [List.length_cons]
      omega
    rw [List.cons_append, List.cons_append, readPairs, ih hfront, hhalf]
    simp only [List.cons_append, Nat.add_assoc]
  | case2 front stale hnone =>
    obtain rfl := eq_nil_of_no_pair heven hnone
    rfl

/-- A leading zero may as well be a blank: the stream skips it. -/
theorem extract_blank (stale : UInt32) {c : UInt8} (hc : isHexDigit c = true) :
    extract stale [0x20, c] = extract stale [0x30, c] := by
  have hblank : extract stale [0x20, c] = digitValue c := by
    have hdrop : [0x20, c].dropWhile isSpace = [c] := by
      rw [List.dropWhile_cons_of_pos rfl, List.dropWhile_cons_of_neg (by simp [isSpace_digit c hc])]
    rw [extract, hdrop]
    simp only [takeSign_digit hc, dropPrefix, List.takeWhile_cons, hc, if_true, List.takeWhile_nil]
    simp
  rw [hblank, extract_digits stale rfl hc, show digitValue 0x30 = 0 from rfl, UInt32.zero_mul,
    UInt32.zero_add]

end Hex

/-- **A signature has more than one text**: wherever a byte of it is less than
16, its zero may be a blank, and the check answers the same. So whoever passes a
transaction on can change its text without breaking its signature. -/
theorem verify_respelled (O : OpenSSL) (stale stale' : Nat → UInt32)
    {front rest : List UInt8} {c : UInt8} (heven : front.length % 2 = 0)
    (hc : isHexDigit c = true) (message publicKeyHex : List UInt8) :
    O.verify stale stale' message (front ++ 0x20 :: c :: rest) publicKeyHex =
      O.verify stale stale' message (front ++ 0x30 :: c :: rest) publicKeyHex := by
  have hpairs : hexToBytes stale' (front ++ 0x20 :: c :: rest) =
      hexToBytes stale' (front ++ 0x30 :: c :: rest) := by
    rw [hexToBytes, hexToBytes, readPairs_append stale' heven, readPairs_append stale' heven,
      readPairs, readPairs, extract_blank _ hc]
    simp only [List.length_append, List.length_cons]
  rw [OpenSSL.verify, OpenSSL.verify, hpairs]

end PersonalBlockchain
