import PersonalBlockchain.Lib.Framing
import PersonalBlockchain.P2P.Peer

/-!
# Personal blockchain — messages on the wire

`Message::serialize`, `Message::deserialize` and the reading side of
`class Peer`. A `char` is signed, so the length of a body goes through negative
bytes. The JSON text itself is a parameter: `dump` writes it, `parse` reads it
or throws.

## Results

* `bodyLength_lengthPrefix` — a length comes back from its four bytes;
* `deserialize_unknown_iff` — which bodies deserialize to `UNKNOWN`;
* `doReadHeader_eq` — the reader cuts the stream as `Framing.split` does, and passes
  over what deserializes to `UNKNOWN`;
* `doReadHeader_delivers` — the messages of a stream of frames arrive in their order,
  and frames of no use between them do no harm.
-/

namespace PersonalBlockchain

open Framing

/-- `nlohmann::json::dump` and `nlohmann::json::parse`. -/
structure JsonText where
  dump : Json → List Int8
  /-- `none` when it throws -/
  parse : List Int8 → Option Json

/-! ## Names of the types -/

/-- `typeToString`. -/
def MessageType.typeToString : MessageType → String
  | newTransaction => "NEW_TRANSACTION"
  | newBlock => "NEW_BLOCK"
  | requestChain => "REQUEST_CHAIN"
  | responseChain => "RESPONSE_CHAIN"
  | ping => "PING"
  | pong => "PONG"
  | peerList => "PEER_LIST"
  | requestPeers => "REQUEST_PEERS"
  | responsePeers => "RESPONSE_PEERS"
  | nodeAnnounce => "NODE_ANNOUNCE"
  | registerNode => "REGISTER_NODE"
  | requestBootstrap => "REQUEST_BOOTSTRAP"
  | responseBootstrap => "RESPONSE_BOOTSTRAP"
  | unknown => "UNKNOWN"

/-- `stringToType`. -/
def stringToType (str : String) : MessageType :=
  if str = "NEW_TRANSACTION" then .newTransaction
  else if str = "NEW_BLOCK" then .newBlock
  else if str = "REQUEST_CHAIN" then .requestChain
  else if str = "RESPONSE_CHAIN" then .responseChain
  else if str = "PING" then .ping
  else if str = "PONG" then .pong
  else if str = "PEER_LIST" then .peerList
  else if str = "REQUEST_PEERS" then .requestPeers
  else if str = "RESPONSE_PEERS" then .responsePeers
  else if str = "NODE_ANNOUNCE" then .nodeAnnounce
  else if str = "REGISTER_NODE" then .registerNode
  else if str = "REQUEST_BOOTSTRAP" then .requestBootstrap
  else if str = "RESPONSE_BOOTSTRAP" then .responseBootstrap
  else .unknown

@[simp] theorem stringToType_typeToString (type : MessageType) :
    stringToType type.typeToString = type := by
  cases type <;> rfl

/-! ## The length of a body -/

/-- The four bytes in front of a body, the highest first. -/
def lengthPrefix (len : UInt32) : List Int8 :=
  [((len >>> 24) &&& 0xFF).toUInt8.toInt8, ((len >>> 16) &&& 0xFF).toUInt8.toInt8,
    ((len >>> 8) &&& 0xFF).toUInt8.toInt8, (len &&& 0xFF).toUInt8.toInt8]

/-- `bodyLen` of the four bytes of a header. -/
def bodyLength (b0 b1 b2 b3 : Int8) : UInt32 :=
  (b0.toUInt8.toUInt32 <<< 24) ||| (b1.toUInt8.toUInt32 <<< 16) |||
    (b2.toUInt8.toUInt32 <<< 8) ||| b3.toUInt8.toUInt32

/-- A body behind its length; `data.size()` is cut to 32 bits. -/
def framed (data : List Int8) : List Int8 :=
  lengthPrefix (UInt32.ofNat data.length) ++ data

/-- The longest body a reader takes. -/
def maxBodyLength : Nat := 10 * 1024 * 1024

/-- Four bytes, each shifted to its place, are the sum of their values. -/
theorem or_shiftLeft_eq_add {a b c d : Nat} (hb : b < 2 ^ 8) (hc : c < 2 ^ 8) (hd : d < 2 ^ 8) :
    a <<< 24 ||| b <<< 16 ||| c <<< 8 ||| d = a * 2 ^ 24 + b * 2 ^ 16 + c * 2 ^ 8 + d := by
  -- from the highest byte on, each `|||` appends the next one
  have h1 : a <<< 24 ||| b <<< 16 = (a * 2 ^ 8 + b) <<< 16 := by
    rw [← Nat.shiftLeft_eq, Nat.shiftLeft_add_eq_or_of_lt hb, Nat.shiftLeft_or_distrib,
      ← Nat.shiftLeft_add]
  have h2 : (a * 2 ^ 8 + b) <<< 16 ||| c <<< 8 = ((a * 2 ^ 8 + b) * 2 ^ 8 + c) <<< 8 := by
    rw [← Nat.shiftLeft_eq (a * 2 ^ 8 + b) 8, Nat.shiftLeft_add_eq_or_of_lt hc,
      Nat.shiftLeft_or_distrib, ← Nat.shiftLeft_add]
  rw [h1, h2, ← Nat.shiftLeft_add_eq_or_of_lt hd, Nat.shiftLeft_eq]
  omega

theorem bodyLength_toNat (b0 b1 b2 b3 : Int8) :
    (bodyLength b0 b1 b2 b3).toNat =
      b0.toUInt8.toNat * 2 ^ 24 + b1.toUInt8.toNat * 2 ^ 16 + b2.toUInt8.toNat * 2 ^ 8 +
        b3.toUInt8.toNat := by
  have h0 := b0.toUInt8.toNat_lt
  have h1 := b1.toUInt8.toNat_lt
  have h2 := b2.toUInt8.toNat_lt
  have h3 := b3.toUInt8.toNat_lt
  -- no bit of a byte leaves the word
  have hplace : ∀ {b k : Nat}, b < 2 ^ 8 → k ≤ 24 → b <<< k % 2 ^ 32 = b <<< k := by
    intro b k hb hk
    refine Nat.mod_eq_of_lt ?_
    rw [Nat.shiftLeft_eq]
    calc b * 2 ^ k < 2 ^ 8 * 2 ^ k := by gcongr
      _ ≤ 2 ^ 8 * 2 ^ 24 := Nat.mul_le_mul_left _ (Nat.pow_le_pow_right (by decide) hk)
  rw [← or_shiftLeft_eq_add h1 h2 h3, bodyLength]
  simp only [UInt32.toNat_or, UInt32.toNat_shiftLeft, UInt8.toNat_toUInt32]
  show b0.toUInt8.toNat <<< 24 % 2 ^ 32 ||| b1.toUInt8.toNat <<< 16 % 2 ^ 32 |||
    b2.toUInt8.toNat <<< 8 % 2 ^ 32 ||| b3.toUInt8.toNat = _
  rw [hplace h0 (by omega), hplace h1 (by omega), hplace h2 (by omega)]

/-- A length comes back from its four bytes, negative as they may be. -/
theorem bodyLength_lengthPrefix (len : UInt32) :
    bodyLength ((len >>> 24) &&& 0xFF).toUInt8.toInt8 ((len >>> 16) &&& 0xFF).toUInt8.toInt8
      ((len >>> 8) &&& 0xFF).toUInt8.toInt8 (len &&& 0xFF).toUInt8.toInt8 = len := by
  apply UInt32.toNat_inj.mp
  have hlen := len.toNat_lt
  have hbyte : ∀ n : Nat, n &&& UInt32.toNat 255 = n % 2 ^ 8 := fun n =>
    Nat.and_two_pow_sub_one_eq_mod n 8
  simp only [bodyLength_toNat, UInt8.toUInt8_toInt8, UInt32.toNat_toUInt8, UInt32.toNat_and,
    UInt32.toNat_shiftRight, hbyte, Nat.shiftRight_eq_div_pow]
  show len.toNat / 2 ^ 24 % 2 ^ 8 % 2 ^ 8 * 2 ^ 24 + len.toNat / 2 ^ 16 % 2 ^ 8 % 2 ^ 8 * 2 ^ 16 +
    len.toNat / 2 ^ 8 % 2 ^ 8 % 2 ^ 8 * 2 ^ 8 + len.toNat % 2 ^ 8 % 2 ^ 8 = len.toNat
  omega

/-- The header of a body, as the reader and the writer share it. -/
def wireHeader : Header Int8 maxBodyLength where
  width := 4
  width_pos := Nat.zero_lt_succ _
  encode size := lengthPrefix (UInt32.ofNat size)
  decode
    | [b0, b1, b2, b3] => (bodyLength b0 b1 b2 b3).toNat
    | _ => 0
  encode_length _ := rfl
  decode_encode size hsize := by
    have hfits : size < 2 ^ 32 := Nat.lt_of_le_of_lt hsize (by decide)
    simp only [lengthPrefix, bodyLength_lengthPrefix]
    exact UInt32.toNat_ofNat_of_lt' hfits

/-! ## `serialize` and `deserialize` -/

namespace Message

/-- The object that is sent, its keys in order. -/
def toJson (msg : Message) : Json :=
  .object [("payload", msg.payload), ("type", .string msg.type.typeToString)]

/-- `serialize`. -/
def serialize (T : JsonText) (msg : Message) : List Int8 := framed (T.dump msg.toJson)

/-- What the `try` of `deserialize` computes from a parsed text. -/
def ofJson (j : Json) : Except JsonError Message := do
  let type ← j.value Json.getString "type" "UNKNOWN"
  let payload ← j.value .ok "payload" (.object [])
  return { type := stringToType type, payload := payload }

/-- `deserialize`. -/
def deserialize (T : JsonText) (data : List Int8) : Message :=
  match T.parse data with
  | none => { type := .unknown }
  | some j =>
    match ofJson j with
    | .error _ => { type := .unknown }
    | .ok msg => msg

@[simp] theorem ofJson_toJson (msg : Message) : ofJson msg.toJson = .ok msg := by
  simp [ofJson, toJson, Json.value, Json.find, List.lookup_cons, Json.getString, bind, Except.bind,
    pure, Except.pure]

theorem deserialize_dump (T : JsonText) {msg : Message}
    (hparse : T.parse (T.dump msg.toJson) = some msg.toJson) :
    deserialize T (T.dump msg.toJson) = msg := by
  simp only [deserialize, hparse, ofJson_toJson]

/-- What deserializes to `UNKNOWN`: no JSON, no object, no string for a type,
or a string that names none. -/
theorem deserialize_unknown_iff (T : JsonText) (data : List Int8) :
    (deserialize T data).type = .unknown ↔
      ∀ j, T.parse data = some j → ∀ str, j.value Json.getString "type" "UNKNOWN" = .ok str →
        stringToType str = .unknown := by
  unfold deserialize
  cases hparse : T.parse data with
  | none => simp
  | some j =>
    simp only [Option.some.injEq, forall_eq']
    cases j with
    | object members =>
      -- only the member that names the type can throw
      cases htype : (Json.object members).value Json.getString "type" "UNKNOWN" with
      | error e => simp [ofJson, htype, bind, Except.bind]
      | ok str =>
        obtain ⟨payload, hpayload⟩ : ∃ payload,
            (Json.object members).value .ok "payload" (.object []) = .ok payload := by
          simp only [Json.value]
          split
          · exact ⟨_, rfl⟩
          · exact ⟨_, rfl⟩
        simp [ofJson, htype, hpayload, bind, Except.bind, pure, Except.pure]
    | _ => simp [ofJson, Json.value, bind, Except.bind]

end Message

/-! ## Reading -/

mutual

/-- `doReadHeader`: the messages its connection hands to the handler, out of
the bytes that are still to come. -/
def doReadHeader (T : JsonText) (input : List Int8) : List Message :=
  match input with
  | b0 :: b1 :: b2 :: b3 :: rest =>
    -- the connection is closed on more than 10 MB
    if bodyLength b0 b1 b2 b3 > 10 * 1024 * 1024 then []
    else doReadBody T (bodyLength b0 b1 b2 b3) rest
  | _ => []
termination_by input.length
decreasing_by
  simp only [List.length_cons]
  omega

/-- `doReadBody`. -/
def doReadBody (T : JsonText) (length : UInt32) (input : List Int8) : List Message :=
  if input.length < length.toNat then []
  else
    let msg := Message.deserialize T (input.take length.toNat)
    (if msg.type = .unknown then [] else [msg]) ++ doReadHeader T (input.drop length.toNat)
termination_by input.length + 1
decreasing_by
  simp only [List.length_drop]
  omega

end

/-- What becomes of a body. -/
def handled (T : JsonText) (data : List Int8) : Option Message :=
  if (Message.deserialize T data).type = .unknown then none else some (Message.deserialize T data)

/-- What a header of four bytes says about the rest of the stream. -/
theorem split_wireHeader (b0 b1 b2 b3 : Int8) (rest : List Int8) :
    split wireHeader (b0 :: b1 :: b2 :: b3 :: rest) =
      if maxBodyLength < (bodyLength b0 b1 b2 b3).toNat ∨
          rest.length < (bodyLength b0 b1 b2 b3).toNat then []
      else rest.take (bodyLength b0 b1 b2 b3).toNat ::
        split wireHeader (rest.drop (bodyLength b0 b1 b2 b3).toNat) := by
  rw [split, if_neg]
  · rfl
  · simp [wireHeader]

theorem split_wireHeader_short {input : List Int8} (h : input.length < 4) :
    split wireHeader input = [] := by
  rw [split, if_pos]
  exact h

/-- **The reader cuts the stream into frames**, and hands on what it can read.
The induction follows the two functions of the reader, which call each other. -/
theorem doReadHeader_eq (T : JsonText) (input : List Int8) :
    doReadHeader T input = (split wireHeader input).filterMap (handled T) := by
  induction hlen : input.length using Nat.strong_induction_on generalizing input with
  | _ n ih =>
  subst hlen
  by_cases hfour : ∃ b0 b1 b2 b3 rest, input = b0 :: b1 :: b2 :: b3 :: rest
  · obtain ⟨b0, b1, b2, b3, rest, rfl⟩ := hfour
    have hlong : bodyLength b0 b1 b2 b3 > 10 * 1024 * 1024 ↔
        maxBodyLength < (bodyLength b0 b1 b2 b3).toNat := UInt32.lt_iff_toNat_lt
    rw [doReadHeader, split_wireHeader]
    by_cases hclosed : bodyLength b0 b1 b2 b3 > 10 * 1024 * 1024
    · rw [if_pos hclosed, if_pos (.inl (hlong.mp hclosed)), List.filterMap_nil]
    rw [if_neg hclosed, doReadBody]
    by_cases hshort : rest.length < (bodyLength b0 b1 b2 b3).toNat
    · rw [if_pos hshort, if_pos (.inr hshort), List.filterMap_nil]
    -- a whole body, and the next header behind it
    have hnext := ih (rest.drop (bodyLength b0 b1 b2 b3).toNat).length
      (by simp only [List.length_drop, List.length_cons]; omega) _ rfl
    rw [if_neg hshort, if_neg (not_or.mpr ⟨hlong.not.mp hclosed, hshort⟩)]
    simp only [hnext, List.filterMap_cons, handled]
    by_cases hunknown :
        (Message.deserialize T (rest.take (bodyLength b0 b1 b2 b3).toNat)).type = .unknown
    · simp only [if_pos hunknown, List.nil_append]
    · simp only [if_neg hunknown, List.singleton_append]
  · -- fewer than four bytes are no header
    have hshort : input.length < 4 := by
      rcases input with - | ⟨b0, - | ⟨b1, - | ⟨b2, - | ⟨b3, rest⟩⟩⟩⟩
      · decide
      · exact Nat.le_add_left 2 2
      · exact Nat.le_add_left 3 1
      · exact Nat.lt_succ_self 3
      · exact absurd ⟨b0, b1, b2, b3, rest, rfl⟩ hfour
    rw [split_wireHeader_short hshort, doReadHeader]
    · rfl
    · exact fun b0 b1 b2 b3 rest heq => hfour ⟨b0, b1, b2, b3, rest, heq⟩

/-! ## The round trip -/

/-- A frame of the stream: a message, or a body of whatever else. -/
abbrev Framed := Message ⊕ List Int8

/-- The bytes of a frame. -/
def Framed.bytes (T : JsonText) : Framed → List Int8 :=
  Sum.elim (Message.serialize T) framed

/-- What the length of a frame stands before. -/
def Framed.body (T : JsonText) : Framed → List Int8 :=
  Sum.elim (fun msg => T.dump msg.toJson) id

theorem Framed.bytes_eq (T : JsonText) (frame : Framed) :
    frame.bytes T = wireHeader.frame (frame.body T) := by
  cases frame <;> rfl

/-- **Framing round trip**: the messages of a stream of frames arrive in their
order, and bodies that deserialize to `UNKNOWN` between them change nothing. -/
theorem doReadHeader_delivers (T : JsonText) (ms : List Message) (frames : List Framed)
    (hms : frames.filterMap Sum.getLeft? = ms) (htypes : ∀ m ∈ ms, m.type ≠ .unknown)
    (hsizes : ∀ m ∈ ms, (T.dump m.toJson).length ≤ 10 * 1024 * 1024)
    (hparse : ∀ m ∈ ms, T.parse (T.dump m.toJson) = some m.toJson)
    (hother : ∀ data, .inr data ∈ frames →
      data.length ≤ 10 * 1024 * 1024 ∧ (Message.deserialize T data).type = .unknown) :
    doReadHeader T (frames.flatMap (Framed.bytes T)) = ms := by
  subst hms
  have hmem : ∀ m : Message, .inl m ∈ frames → m ∈ frames.filterMap Sum.getLeft? := fun m hm =>
    List.mem_filterMap.mpr ⟨.inl m, hm, rfl⟩
  -- no body is longer than the reader allows, so that the frames come apart again
  have hbodies : ∀ b ∈ frames.map (Framed.body T), b.length ≤ maxBodyLength := by
    intro b hb
    obtain ⟨frame, hframe, rfl⟩ := List.mem_map.mp hb
    cases frame with
    | inl m => exact hsizes m (hmem m hframe)
    | inr data => exact (hother data hframe).1
  have hstream : frames.flatMap (Framed.bytes T) =
      (frames.map (Framed.body T)).flatMap wireHeader.frame := by
    rw [List.flatMap_map]
    exact List.flatMap_congr fun frame _ => frame.bytes_eq T
  rw [doReadHeader_eq, hstream, split_frames wireHeader hbodies, List.filterMap_map]
  refine List.filterMap_congr fun frame hframe => ?_
  cases frame with
  | inl m =>
    show handled T (T.dump m.toJson) = some m
    rw [handled, Message.deserialize_dump T (hparse m (hmem m hframe)),
      if_neg (htypes m (hmem m hframe))]
  | inr data =>
    show handled T data = none
    rw [handled, if_pos (hother data hframe).2]

/-! ## A stream with two frames of no use -/

section Sample

/-- The bytes of a text in ASCII. -/
def asciiBytes (s : String) : List Int8 := s.toList.map fun c => (UInt8.ofNat c.toNat).toInt8

/-- The texts of a few messages without a payload. -/
def sampleText : JsonText where
  dump
    | .object [("payload", .object []), ("type", .string type)] =>
      asciiBytes ("\x7b\"payload\":\x7b\x7d,\"type\":\"" ++ type ++ "\"\x7d")
    | _ => asciiBytes "null"
  parse data :=
    if data = asciiBytes "\x7b\"payload\":\x7b\x7d,\"type\":\"PING\"\x7d" then
      some (Message.toJson ⟨.ping, .object []⟩)
    else if data = asciiBytes "null" then some .null
    else none

end Sample

/-- An empty body, a PING, and `null`. -/
theorem doReadHeader_delivers_ping :
    doReadHeader sampleText
      ([.inr [], .inl ⟨.ping, .object []⟩, .inr (asciiBytes "null")].flatMap
        (Framed.bytes sampleText)) = [⟨.ping, .object []⟩] := by
  refine doReadHeader_delivers sampleText _ _ rfl ?_ ?_ ?_ ?_
  · simp
  · simp only [List.mem_singleton, forall_eq]
    decide +kernel
  · simp only [List.mem_singleton, forall_eq]
    rfl
  · simp only [List.mem_cons, Sum.inr.injEq, reduceCtorEq, List.not_mem_nil, or_false, false_or,
      forall_eq_or_imp, forall_eq]
    decide +kernel

end PersonalBlockchain
