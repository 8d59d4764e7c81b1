import PersonalBlockchain.Http.MiningCooldown
import PersonalBlockchain.Lib.Segments

/-!
# Personal blockchain — the body of a request

`handleConnection` reads a header up to the first empty line, and as much of the body
as its `Content-Length` says. Part of the body may have come with the header, and
the rest comes in any number of reads.

When the connection ends or fails before the announced body has come, the handler
only leaves out the assignment of the body: the request is handled with an empty one.

## Results

* `handleConnection_eq` — what is done with a connection depends on the bytes that
  come and not on how the reads cut them;
* `body_delivery_exact_iff` — a stream is delivered exactly if and only if it does
  not end or fail before the announced body has come;
* `body_delivery_counterexample` — a request whose body breaks off mines for the
  default address.
-/

namespace PersonalBlockchain

open Std Segments

namespace HttpServer

/-- A `std::string` of bytes. -/
def asString (bytes : List UInt8) : String :=
  String.ofList (bytes.map fun b => Char.ofNat b.toNat)

/-- `HttpRequest`. The keys of `headers` are in lower case, and of several
headers of one name the last one counts. -/
structure HttpRequest where
  method : String := ""
  path : String := ""
  headers : ExtTreeMap String String := ∅
  body : String := ""

/-- `HttpResponse`, with its defaults. -/
structure HttpResponse where
  statusCode : Nat := 200
  statusText : String := "OK"
  contentType : String := "application/json"
  body : String

/-! ## `parseRequest` -/

/-- Without a trailing `\r`. -/
def trimCr (line : List Char) : List Char :=
  if line.getLast? = some '\r' then line.dropLast else line

/-- The request line, with two blanks in it at least. -/
def parseRequestLine (line : List Char) : Option (String × String) :=
  let sp1 := line.dropWhile (· ≠ ' ')
  let sp2 := sp1.tail.dropWhile (· ≠ ' ')
  if sp1 = [] ∨ sp2 = [] then none
  else some (String.ofList (line.takeWhile (· ≠ ' ')),
    String.ofList (sp1.tail.takeWhile (· ≠ ' ')))

/-- The header lines up to an empty one. -/
def parseHeaders : List (List Char) → ExtTreeMap String String → ExtTreeMap String String
  | [], headers => headers
  | line :: lines, headers =>
    let line := trimCr line
    if line = [] then headers
    else if ':' ∈ line then
      let key := (line.takeWhile (· ≠ ':')).map Char.toLower
      let val := (line.dropWhile (· ≠ ':')).tail.dropWhile (· = ' ')
      parseHeaders lines (headers.insert (String.ofList key) (String.ofList val))
    else parseHeaders lines headers

/-- `parseRequest`: the request line and the headers. The body stays empty,
since it is `handleConnection` that reads it. -/
def parseRequest (raw : String) : HttpRequest :=
  match raw.toList.splitOn '\n' with
  | [] => {}
  | line :: lines =>
    let requestLine := (parseRequestLine (trimCr line)).getD ("", "")
    { method := requestLine.1, path := requestLine.2, headers := parseHeaders lines ∅ }

/-- `std::stoul` with an `unsigned long` of 64 bits: blanks, a sign, digits, and
whatever follows them. No digits or too many of them throw; a minus sign negates
modulo 2⁶⁴. -/
def stoul (s : String) : Option Nat :=
  let chars := s.toList.dropWhile isSpace
  let (negative, digits) := match chars with
    | '-' :: rest => (true, rest.takeWhile Char.isDigit)
    | '+' :: rest => (false, rest.takeWhile Char.isDigit)
    | _ => (false, chars.takeWhile Char.isDigit)
  if digits = [] then none
  else
    let magnitude := digits.foldl (fun n c => n * 10 + (c.toNat - 48)) 0
    if magnitude < 2 ^ 64 then
      some (if negative then (2 ^ 64 - magnitude) % 2 ^ 64 else magnitude)
    else none

/-! ## `handleConnection` -/

/-- `"\r\n\r\n"` -/
def headerEnd : List UInt8 := [13, 10, 13, 10]

/-- The constant of that name: one megabyte, inclusive. -/
def MAX_BODY_SIZE : Nat := 1 * 1024 * 1024

/-- What `handleConnection` makes of the reads it has got so far. -/
inductive Delivery
  /-- the next read is waited for -/
  | reading
  /-- an error while the header is read; nothing is answered -/
  | dropped
  | refused (resp : HttpResponse)
  /-- `handleRequest` is called -/
  | handled (req : HttpRequest)

/-- The answer to a length that `std::stoul` rejects. -/
def invalidContentLength : HttpResponse where
  statusCode := 400
  statusText := "Bad Request"
  body := "\x7b\"error\": \"Invalid Content-Length header\"\x7d"

/-- The answer to a length beyond `MAX_BODY_SIZE`. -/
def bodyTooLarge : HttpResponse where
  statusCode := 413
  statusText := "Payload Too Large"
  body := "\x7b\"error\": \"Request body too large (max 1MB)\"\x7d"

/-- `handleConnection`, by what its reads get one after the other. `error` says
whether the connection ends or fails after them; without it the next read is
waited for. The header is read by `async_read_until` and may bring part of the
body along. -/
def handleConnection (reads : List (List UInt8)) (error : Bool) : Delivery :=
  match readUntil headerEnd [] reads with
  | none => if error then .dropped else .reading
  | some (rawData, rest) =>
    -- the delimiter has come
    let (rawHeaders, extraBody) := (cutAfter headerEnd rawData).getD ([], [])
    let req := parseRequest (asString rawHeaders)
    match req.headers["content-length"]? with
    | none => .handled req
    | some value =>
      match stoul value with
      | none => .refused invalidContentLength
      | some contentLen =>
        if MAX_BODY_SIZE < contentLen then .refused bodyTooLarge
        else
          let remaining := contentLen - extraBody.length
          if 0 < remaining then
            match readExactly remaining rest with
            | some bodyBuf =>
              .handled { req with body := asString extraBody ++ asString bodyBuf }
            -- `ec2` is set: `req.body` stays empty
            | none => if error then .handled req else .reading
          else .handled { req with body := asString (extraBody.take contentLen) }

/-! ## `handleRequest` -/

/-- The handler that `handleRequest` calls, and what it is given. -/
inductive Route
  /-- 204 -/
  | preflight
  | createWallet
  | importWallet (body : String)
  | walletLogin (body : String)
  | loginChallenge (body : String)
  | verifyLogin (body : String)
  | sendTransaction (body : String)
  | mine (body path : String)
  | trade (body : String)
  | getChain
  | getTransactions
  | getMempool
  | getWalletBalance (address : String)
  | getWalletTransactions (address : String)
  | getPeers
  | getPeerScores
  | networkStats
  | health
  /-- 404 -/
  | notFound
  deriving DecidableEq

/-- What follows a prefix. -/
def after (pre : String) (routePath : List Char) : String :=
  String.ofList (routePath.drop pre.length)

/-- The dispatch of `handleRequest`. -/
def handleRequest (req : HttpRequest) : Route :=
  let routePath := req.path.toList.takeWhile (· ≠ '?')
  let post (path : String) : Bool := req.method = "POST" ∧ routePath = path.toList
  let get (path : String) : Bool := req.method = "GET" ∧ routePath = path.toList
  if req.method = "OPTIONS" then .preflight
  else if post "/wallet/create" then .createWallet
  else if post "/wallet/import" then .importWallet req.body
  else if post "/wallet/login" then .walletLogin req.body
  else if post "/wallet/loginChallenge" then .loginChallenge req.body
  else if post "/wallet/verifyLogin" then .verifyLogin req.body
  else if post "/transaction/send" then .sendTransaction req.body
  else if req.method = "POST" ∧ "/mine".toList.isPrefixOf routePath then .mine req.body req.path
  else if post "/api/trade" then .trade req.body
  else if get "/chain" then .getChain
  else if get "/transactions" then .getTransactions
  else if get "/mempool" then .getMempool
  else if req.method = "GET" ∧ "/wallet/balance/".toList.isPrefixOf routePath then
    .getWalletBalance (after "/wallet/balance/" routePath)
  else if req.method = "GET" ∧ "/wallet/transactions/".toList.isPrefixOf routePath then
    .getWalletTransactions (after "/wallet/transactions/" routePath)
  else if get "/peers" then .getPeers
  else if get "/peers/scores" then .getPeerScores
  else if get "/network/stats" then .networkStats
  else if get "/health" then .health
  else if get "/status" then .health
  else .notFound

/-! ## A stream in one piece -/

/-- What is done with a connection, by all the bytes that come and not by how
the reads cut them: the header is whatever stands before the first empty line,
and the body what follows it. -/
def delivery (stream : List UInt8) (error : Bool) : Delivery :=
  match cutAfter headerEnd stream with
  | none => if error then .dropped else .reading
  | some (rawHeaders, body) =>
    let req := parseRequest (asString rawHeaders)
    match req.headers["content-length"]? with
    | none => .handled req
    | some value =>
      match stoul value with
      | none => .refused invalidContentLength
      | some n =>
        if MAX_BODY_SIZE < n then .refused bodyTooLarge
        else if n ≤ body.length then .handled { req with body := asString (body.take n) }
        else if error then .handled req
        else .reading

/-- The string of the parts is that of the whole, so a body may be put together.
-/
theorem asString_append (a b : List UInt8) : asString (a ++ b) = asString a ++ asString b := by
  simp only [asString, List.map_append, String.ofList_append]

/-- **The reads make no difference.** Two connections that bring the same bytes
and end in the same way are handled in the same way, wherever the reads cut
them. -/
theorem handleConnection_eq (reads : List (List UInt8)) (error : Bool) :
    handleConnection reads error = delivery reads.flatten error := by
  cases hread : readUntil headerEnd [] reads with
  | none =>
    have hcut : cutAfter headerEnd reads.flatten = none := readUntil_none rfl hread
    rw [handleConnection, hread, delivery, hcut]
  | some r =>
    -- the header is cut off in the same place as from the whole stream
    obtain ⟨rawData, rest⟩ := r
    obtain ⟨⟨rawHeaders, extraBody⟩, hdata, hstream⟩ := readUntil_some hread
    rw [List.nil_append] at hstream
    rw [handleConnection, hread, delivery, hstream]
    dsimp only
    rw [hdata]
    dsimp only [Option.getD_some]
    cases (parseRequest (asString rawHeaders)).headers["content-length"]? with
    | none => rfl
    | some value =>
      dsimp only
      cases stoul value with
      | none => rfl
      | some n =>
        dsimp only
        rw [readExactly_eq, List.length_append]
        by_cases hlarge : MAX_BODY_SIZE < n
        · rw [if_pos hlarge, if_pos hlarge]
        rw [if_neg hlarge, if_neg hlarge]
        by_cases hmore : 0 < n - extraBody.length
        · -- part of the body is still to come
          rw [if_pos hmore]
          by_cases henough : n ≤ extraBody.length + rest.flatten.length
          · have htake : (extraBody ++ rest.flatten).take n =
                extraBody ++ rest.flatten.take (n - extraBody.length) := by
              rw [List.take_append, List.take_of_length_le (by omega)]
            rw [if_pos henough, if_pos (by omega), htake, asString_append]
          · rw [if_neg henough, if_neg (by omega)]
        · -- the header has brought all of it, and perhaps more
          have hle : n ≤ extraBody.length := by omega
          rw [if_neg hmore, if_pos (by omega), List.take_append_of_le_length hle]

/-! ## The body of a request -/

/-- The header of the stream names a valid length, and this is what follows it. -/
structure Announces (stream : List UInt8) (req : HttpRequest) (n : Nat) (body : List UInt8) :
    Prop where
  cut : ∃ rawHeaders, cutAfter headerEnd stream = some (rawHeaders, body) ∧
    parseRequest (asString rawHeaders) = req
  length : req.headers["content-length"]?.bind stoul = some n
  allowed : n ≤ MAX_BODY_SIZE

/-- Fewer bytes have come than the header announces. -/
def Truncated (stream : List UInt8) : Prop :=
  ∃ req n body, Announces stream req n body ∧ body.length < n

/-- However the stream is cut, its body is delivered as announced, or the request is
not handled. -/
def DeliversExactly (stream : List UInt8) (error : Bool) : Prop :=
  ∀ req n body, Announces stream req n body → ∀ reads : List (List UInt8),
    reads.flatten = stream →
      (n ≤ body.length →
        handleConnection reads error = .handled { req with body := asString (body.take n) }) ∧
      (body.length < n → error = true → ∀ called, handleConnection reads error ≠ .handled called)

/-- What is done with a stream whose header names a valid length: the body is
delivered when enough has come, and otherwise the request waits, or is handled
with an empty body when nothing more will come. -/
theorem Announces.delivery_eq {stream : List UInt8} {req : HttpRequest} {n : Nat}
    {body : List UInt8} (h : Announces stream req n body) (error : Bool) :
    delivery stream error =
      if n ≤ body.length then .handled { req with body := asString (body.take n) }
      else if error then .handled req
      else .reading := by
  obtain ⟨⟨rawHeaders, hcut, rfl⟩, hlength, hallowed⟩ := h
  obtain ⟨value, hvalue, hn⟩ := Option.bind_eq_some_iff.mp hlength
  rw [delivery, hcut]
  dsimp only
  rw [hvalue]
  dsimp only
  rw [hn]
  dsimp only
  rw [if_neg hallowed.not_gt]

/-- **The delivery of bodies.** A stream is delivered exactly, however it is
cut, if and only if it does not end or fail before the announced body has come.
A stream that is cut off there reaches its handler all the same, with an empty
body. -/
theorem body_delivery_exact_iff (stream : List UInt8) (error : Bool) :
    DeliversExactly stream error ↔ ¬ (error = true ∧ Truncated stream) := by
  constructor
  · rintro h ⟨rfl, req, n, body, hannounces, hlt⟩
    have hone : [stream].flatten = stream := List.flatten_singleton
    refine (h req n body hannounces [stream] hone).2 hlt rfl req ?_
    rw [handleConnection_eq, hone, hannounces.delivery_eq, if_neg hlt.not_ge, if_pos rfl]
  · rintro hwhole req n body hannounces reads rfl
    rw [handleConnection_eq, hannounces.delivery_eq]
    refine ⟨fun hle => if_pos hle, fun hlt herror => ?_⟩
    exact absurd ⟨herror, req, n, body, hannounces, hlt⟩ hwhole

/-! ## A body that is cut off -/

section Sample

/-- The bytes of an ASCII string. -/
def bytes (s : String) : List UInt8 := s.toList.map fun c => UInt8.ofNat c.toNat

/-- The header of a request to mine, which announces 63 bytes. -/
def mineHeader : List UInt8 := bytes "POST /mine HTTP/1.1\r\nContent-Length: 63\r\n\r\n"

/-- A client of `sampleMiner` asks for a block, and the connection breaks off. -/
def truncatedMine : List UInt8 := mineHeader ++ bytes "\x7b\"minerAddress\":\"PCN_477c"

/-- The header of the broken request names 63 bytes, and 25 follow it. -/
theorem truncatedMine_announces : Announces truncatedMine (parseRequest (asString mineHeader)) 63
    (bytes "\x7b\"minerAddress\":\"PCN_477c") :=
  ⟨⟨mineHeader, by decide +kernel, rfl⟩, by decide +kernel, by decide⟩

end Sample

/-- The request whose body is cut off is handled, and mines for `GENESIS`. -/
theorem body_delivery_counterexample :
    (¬ ∀ stream error, DeliversExactly stream error) ∧
      ∃ req, handleConnection [truncatedMine] true = .handled req ∧
        handleRequest req = .mine "" "/mine" ∧
          MiningServer.arrival (fun _ => none) 0 "" "/mine" ∅ = .admitted "GENESIS" := by
  have hhandled : handleConnection [truncatedMine] true =
      .handled (parseRequest (asString mineHeader)) := by
    rw [handleConnection_eq, List.flatten_singleton, truncatedMine_announces.delivery_eq,
      if_neg (by decide), if_pos rfl]
  refine ⟨fun h => ?_, _, hhandled, by decide +kernel, by rfl⟩
  exact (h truncatedMine true _ _ _ truncatedMine_announces [truncatedMine]
    List.flatten_singleton).2 (by decide) rfl _ hhandled

end HttpServer

end PersonalBlockchain
