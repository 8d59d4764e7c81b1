import PersonalBlockchain.Model.Block
import PersonalBlockchain.P2P.Wire

/-!
# Personal blockchain — JSON as text

`nlohmann::json::dump` without indentation: the text of a value, character by
character, and its bytes in UTF-8. A string of the model is valid Unicode, so
the exception for invalid UTF-8 does not occur. How a double is written stays
open.

Main results: `Transaction.utf8Size_dump`, `Block.utf8Size_dump` — how many bytes the
text of a transaction and of a block has.
-/

namespace PersonalBlockchain

/-! ## The text of a value -/

namespace Json

/-- What `dump_escaped` writes for a character: the short escapes, `\u00..` for
other control characters, and everything else as it is. -/
def escaped (c : Char) : List Char :=
  if c = '\x08' then ['\\', 'b']
  else if c = '\t' then ['\\', 't']
  else if c = '\n' then ['\\', 'n']
  else if c = '\x0c' then ['\\', 'f']
  else if c = '\r' then ['\\', 'r']
  else if c = '\"' then ['\\', '\"']
  else if c = '\\' then ['\\', '\\']
  else if c.toNat ≤ 0x1F then
    ['\\', 'u', '0', '0', Nat.digitChar (c.toNat / 16), Nat.digitChar (c.toNat % 16)]
  else [c]

/-- A string between its quotation marks. -/
def quoted (s : String) : List Char := '\"' :: s.toList.flatMap escaped ++ ['\"']

variable (float : ℚ → List Char)

mutual

/-- `dump()`; `float` is `dump_float`. -/
def dump : Json → List Char
  | null => ['n', 'u', 'l', 'l']
  | boolean b => if b then ['t', 'r', 'u', 'e'] else ['f', 'a', 'l', 's', 'e']
  | numberUnsigned n => Nat.toDigits 10 n.toNat
  | numberInteger n => (toString n.toInt).toList
  | numberFloat q => float q
  | string s => quoted s
  | array items => '[' :: dumpItems items ++ [']']
  | object members => '\x7b' :: dumpMembers members ++ ['\x7d']

/-- The loop over an array; no comma follows the last element. -/
def dumpItems : List Json → List Char
  | [] => []
  | [j] => dump j
  | j :: j' :: js => dump j ++ ',' :: dumpItems (j' :: js)

/-- The loop over an object. -/
def dumpMembers : List (String × Json) → List Char
  | [] => []
  | [m] => dumpMember m
  | m :: m' :: ms => dumpMember m ++ ',' :: dumpMembers (m' :: ms)

/-- One member: its key, a colon and its value. -/
def dumpMember : String × Json → List Char
  | (key, j) => quoted key ++ ':' :: dump j

end

example : dump float (.object [("a\"", .array [.null, .numberUnsigned 12])]) =
    "\x7b\"a\\\"\":[null,12]\x7d".toList := by rfl

end Json

/-- The bytes of a text, in UTF-8. -/
def textBytes (text : List Char) : List Int8 :=
  (text.flatMap String.utf8EncodeChar).map UInt8.toInt8

/-- `dump` as the messages use it, with the parser left open. -/
def nlohmann (float : ℚ → List Char) (parse : List Int8 → Option Json) : JsonText where
  dump j := textBytes (j.dump float)
  parse := parse

/-! ## How long a text is -/

/-- The number of bytes of a text. -/
def utf8Size (text : List Char) : Nat := (text.map Char.utf8Size).sum

@[simp] theorem utf8Size_nil : utf8Size [] = 0 := rfl

@[simp] theorem utf8Size_cons (c : Char) (text : List Char) :
    utf8Size (c :: text) = c.utf8Size + utf8Size text := rfl

@[simp] theorem utf8Size_append (text text' : List Char) :
    utf8Size (text ++ text') = utf8Size text + utf8Size text' := by
  simp [utf8Size]

/-- The bytes of a text are as many as its characters have together. -/
theorem length_textBytes (text : List Char) : (textBytes text).length = utf8Size text := by
  rw [textBytes, List.length_map, List.length_flatMap, utf8Size]
  exact congrArg List.sum (List.map_congr_left fun c _ => String.length_utf8EncodeChar c)

/-- The bytes of a string in a text, with its quotation marks. -/
def quotedSize (s : String) : Nat := utf8Size (s.toList.flatMap Json.escaped) + 2

/-- The decimal digits of a number. -/
def digits (n : Nat) : Nat := (Nat.toDigits 10 n).length

/-- The bytes of an array, from those of its elements: the commas between them
and the two brackets come on top. -/
def arraySize (sizes : List Nat) : Nat := sizes.sum + (sizes.length - 1) + 2

/-- The bytes of a transaction. The braces, the commas, and the keys with their
quotation marks and colons are the constant part; the digits of the numbers and
the escaped texts are the rest. -/
def Transaction.textSize (tx : Transaction) : Nat :=
  140 + digits tx.amount.toNat + quotedSize tx.digitalSignature + quotedSize tx.fromAddress +
    digits tx.nonce.toNat + quotedSize tx.payload + quotedSize tx.receiverPublicKey +
    quotedSize tx.senderPublicKey + quotedSize tx.timestamp + quotedSize tx.toAddress +
    quotedSize tx.txID

/-- The bytes of a block, those of its transactions included. -/
def Block.textSize (b : Block) : Nat :=
  100 + digits b.difficulty.toNat + quotedSize b.hash + digits b.index.toNat +
    quotedSize b.merkleRoot + digits b.nonce.toNat + quotedSize b.previousHash +
    quotedSize b.timestamp + arraySize (b.transactions.map Transaction.textSize)

@[simp] theorem utf8Size_quoted (s : String) : utf8Size (Json.quoted s) = quotedSize s := by
  rw [Json.quoted, utf8Size_append, utf8Size_cons, quotedSize]
  show 1 + _ + 1 = _
  omega

/-- Digits are one byte each. -/
@[simp] theorem utf8Size_toDigits (n : Nat) : utf8Size (Nat.toDigits 10 n) = digits n := by
  have hone : ∀ c ∈ Nat.toDigits 10 n, c.utf8Size = 1 := by
    intro c hc
    have hdigit := Nat.isDigit_of_mem_toDigits (by decide) (by decide) hc
    have hle : c.val ≤ 57 := (Char.isDigit_iff_toNat.mp hdigit).2
    exact Char.utf8Size_eq_one_iff.mpr (UInt32.le_trans hle (by decide))
  rw [utf8Size, digits, List.map_congr_left hone]
  simp

namespace Json

variable (float : ℚ → List Char)

theorem utf8Size_dumpItems (js : List Json) :
    utf8Size (dumpItems float js) =
      (js.map fun j => utf8Size (dump float j)).sum + (js.length - 1) := by
  induction js with
  | nil => rfl
  | cons j js ih =>
    -- a comma comes behind every element but the last
    cases js with
    | nil => simp [dumpItems]
    | cons j' js =>
      rw [dumpItems, utf8Size_append, utf8Size_cons, ih]
      show _ + (1 + _) = _
      simp only [List.map_cons, List.sum_cons, List.length_cons]
      omega

theorem utf8Size_dumpMembers (ms : List (String × Json)) :
    utf8Size (dumpMembers float ms) =
      (ms.map fun m => quotedSize m.1 + 1 + utf8Size (dump float m.2)).sum + (ms.length - 1) := by
  have hmember : ∀ m : String × Json,
      utf8Size (dumpMember float m) = quotedSize m.1 + 1 + utf8Size (dump float m.2) := by
    intro m
    rw [dumpMember, utf8Size_append, utf8Size_quoted, utf8Size_cons, Nat.add_assoc]
    rfl
  -- a comma stands before every member but the first
  induction ms with
  | nil => rfl
  | cons m ms ih =>
    cases ms with
    | nil => simp [dumpMembers, hmember]
    | cons m' ms =>
      rw [dumpMembers, utf8Size_append, utf8Size_cons, ih, hmember]
      show _ + (1 + _) = _
      simp only [List.map_cons, List.sum_cons, List.length_cons]
      omega

/-- An array has the bytes of its elements, of the commas and of the brackets. -/
theorem utf8Size_array (js : List Json) :
    utf8Size (dump float (.array js)) = arraySize (js.map fun j => utf8Size (dump float j)) := by
  rw [dump, utf8Size_append, utf8Size_cons, utf8Size_dumpItems, arraySize, List.length_map]
  show 1 + _ + 1 = _
  omega

/-- An object has those of its keys on top, each with a colon. -/
theorem utf8Size_object (ms : List (String × Json)) :
    utf8Size (dump float (.object ms)) =
      arraySize (ms.map fun m => quotedSize m.1 + 1 + utf8Size (dump float m.2)) := by
  rw [dump, utf8Size_append, utf8Size_cons, utf8Size_dumpMembers, arraySize, List.length_map]
  show 1 + _ + 1 = _
  omega

theorem utf8Size_string (s : String) : utf8Size (dump float (.string s)) = quotedSize s := by
  rw [dump, utf8Size_quoted]

theorem utf8Size_numberUnsigned (n : UInt64) :
    utf8Size (dump float (.numberUnsigned n)) = digits n.toNat := by
  rw [dump, utf8Size_toDigits]

end Json

/-- **The text of a transaction** has the bytes that its fields say. -/
theorem Transaction.utf8Size_dump (float : ℚ → List Char) (tx : Transaction) :
    utf8Size (tx.toJson.dump float) = tx.textSize := by
  -- the keys with their quotation marks
  have hkeys : ["amount", "digitalSignature", "fromAddress", "nonce", "payload",
      "receiverPublicKey", "senderPublicKey", "timestamp", "toAddress", "txID"].map quotedSize =
      [8, 18, 13, 7, 9, 19, 17, 11, 11, 6] := by decide +kernel
  simp only [List.map_cons, List.map_nil, List.cons.injEq, and_true] at hkeys
  rw [toJson, Json.utf8Size_object]
  simp only [arraySize, List.map_cons, List.map_nil, List.sum_cons, List.sum_nil, List.length_cons,
    List.length_nil, hkeys, Json.utf8Size_string, Json.utf8Size_numberUnsigned, textSize]
  omega

/-- **The text of a block** has the bytes that its fields and its transactions
say. -/
theorem Block.utf8Size_dump (float : ℚ → List Char) (b : Block) :
    utf8Size (b.toJson.dump float) = b.textSize := by
  -- the keys in the order of the dump, each with its two quotes
  have hkeys : ["difficulty", "hash", "index", "merkleRoot", "nonce", "previousHash", "timestamp",
      "transactions"].map quotedSize = [12, 6, 7, 12, 7, 14, 11, 14] := by decide +kernel
  have htxs : (b.transactions.map Transaction.toJson).map (fun j => utf8Size (j.dump float)) =
      b.transactions.map Transaction.textSize := by
    rw [List.map_map]
    exact List.map_congr_left fun tx _ => tx.utf8Size_dump float
  simp only [List.map_cons, List.map_nil, List.cons.injEq, and_true] at hkeys
  rw [toJson, Json.utf8Size_object]
  simp only [List.map_cons, List.map_nil, hkeys, Json.utf8Size_string, Json.utf8Size_numberUnsigned,
    Json.utf8Size_array, htxs, UInt32.toNat_toUInt64]
  rw [arraySize, textSize]
  simp only [List.sum_cons, List.sum_nil, List.length_cons, List.length_nil]
  omega

end PersonalBlockchain
