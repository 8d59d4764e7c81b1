import PersonalBlockchain.Lib.FiniteMap
import PersonalBlockchain.Lib.Separated
import PersonalBlockchain.P2P.Learning

/-!
# Personal blockchain — spellings of an endpoint

`parseEndpoint` splits at the last colon and gives what follows to `std::stoi`,
which skips blanks, takes a sign and leading zeros and does not mind what comes
after the digits; the number is then cut to 16 bits. Bans, quarantine and known
peers are recorded under the text, so that a host and a port have many entries.

## Results

* `stoi_eq` — what `std::stoi` reads;
* `parseEndpoint_eq_some` — what `parseEndpoint` takes apart;
* `endpoint_canonical_iff` — a text is taken exactly as the spelling of its host and
  port when its port is spelled plainly or refused, and such texts are the same when
  they are taken for the same endpoint;
* `parseEndpoint_respelled` — the other spellings that are taken;
* `isDiscovered_respelled` — a quarantined peer is discovered under one of them.
-/

namespace PersonalBlockchain

open Separated FiniteMap PeerManager Locking NodeM

namespace PeerManager

/-- The port of a text, when `parseEndpoint` takes it. -/
def portOf (text : String) : Option UInt16 :=
  match stoi text with
  | none => none
  | some n =>
    let port := UInt16.ofNat (n % 65536).toNat
    if port > 0 then some port else none

/-- A text without a colon is no endpoint. -/
theorem parseEndpoint_of_not_mem {s : String} (h : ':' ∉ s.toList) : parseEndpoint s = none := by
  rw [parseEndpoint]
  exact if_pos (.inl h)

theorem parseEndpoint_eq {s : String} {host text : List Char}
    (hs : s.toList = host ++ ':' :: text) (htext : ':' ∉ text) :
    parseEndpoint s =
      if host = [] then none
      else (portOf (String.ofList text)).map fun port => (String.ofList host, port) := by
  -- `rfind` finds the colon in front of `text`
  have hafter : (s.toList.reverse.takeWhile fun c => c ≠ ':').reverse = text := by
    rw [hs]
    exact lastField_eq htext
  have hhost : s.toList.take (s.toList.length - text.length - 1) = host := by
    have hlength : s.toList.length - text.length - 1 = host.length := by
      rw [hs, List.length_append, List.length_cons]
      omega
    rw [hlength, hs, List.take_left]
  have hcolon : ':' ∈ s.toList := by simp [hs]
  rw [parseEndpoint]
  simp only [hafter, hhost, hcolon, not_true_eq_false, false_or]
  split
  next => rfl
  next =>
    cases hstoi : stoi (String.ofList text) with
    | none => simp only [portOf, hstoi, Option.map_none]
    | some n =>
      simp only [portOf, hstoi]
      split
      · rfl
      · rfl

/-! ## What `std::stoi` reads -/

theorem isStoiSpace_of_isDigit {c : Char} (h : c.isDigit = true) : isStoiSpace c = false := by
  have hlow : 48 ≤ c.toNat := (Char.isDigit_iff_toNat.mp h).1
  have hblank : c ≠ ' ' := by
    rintro rfl
    exact absurd hlow (by decide)
  have hlate : ¬ c ≤ '\r' := fun hle =>
    absurd (hlow.trans (UInt32.le_iff_toNat_le.mp (Char.le_def.mp hle))) (by decide)
  simp [isStoiSpace, hblank, hlate]

/-- The loop over the digits. -/
theorem foldl_digits {digits : List Char} (hdigits : ∀ c ∈ digits, c.isDigit = true) (init : Nat) :
    digits.foldl (fun (n : Int) c => n * 10 + ((c.toNat : Int) - 48)) init =
      (Nat.ofDigitChars 10 digits init : Int) := by
  -- the accumulators agree after each digit
  induction digits generalizing init with
  | nil => rfl
  | cons c digits ih =>
    have hc : 48 ≤ c.toNat := (Char.isDigit_iff_toNat.mp (hdigits c (by simp))).1
    have hstep : (init : Int) * 10 + ((c.toNat : Int) - 48) =
        ((10 * init + (c.toNat - '0'.toNat) : Nat) : Int) := by
      show (init : Int) * 10 + ((c.toNat : Int) - 48) = ((10 * init + (c.toNat - 48) : Nat) : Int)
      omega
    rw [List.foldl_cons, hstep, ih fun d hd => hdigits d (by simp [hd]), Nat.ofDigitChars_cons]

/-- The sign in front, and the digits behind it. -/
def signedDigits (chars : List Char) : Bool × List Char :=
  match chars with
  | '-' :: rest => (true, rest.takeWhile Char.isDigit)
  | '+' :: rest => (false, rest.takeWhile Char.isDigit)
  | _ => (false, chars.takeWhile Char.isDigit)

/-- The `int` of a sign and digits. -/
def intOf (negative : Bool) (digits : List Char) : Option Int :=
  if digits = [] then none
  else
    let magnitude : Int := digits.foldl (fun n c => n * 10 + ((c.toNat : Int) - 48)) 0
    let value := if negative then -magnitude else magnitude
    if -2147483648 ≤ value ∧ value ≤ 2147483647 then some value else none

theorem stoi_eq_intOf (s : String) :
    stoi s = intOf (signedDigits (s.toList.dropWhile isStoiSpace)).1
      (signedDigits (s.toList.dropWhile isStoiSpace)).2 := rfl

/-- The signs there are. -/
def IsSign (sign : List Char) : Prop := sign = [] ∨ sign = ['+'] ∨ sign = ['-']

theorem signedDigits_eq {sign digits rest : List Char} (hsign : IsSign sign)
    (hdigits : ∀ c ∈ digits, c.isDigit = true) (hne : digits ≠ [])
    (hrest : ∀ c ∈ rest.head?, c.isDigit = false) :
    signedDigits (sign ++ (digits ++ rest)) = (decide (sign = ['-']), digits) := by
  -- the digits end where the rest begins
  have htake : (digits ++ rest).takeWhile Char.isDigit = digits := by
    rw [List.takeWhile_append_of_pos hdigits]
    cases rest with
    | nil => simp
    | cons c rest => simp [hrest c rfl]
  rcases hsign with rfl | rfl | rfl
  · -- a digit is no sign
    obtain ⟨d, digits, rfl⟩ := List.exists_cons_of_ne_nil hne
    have hd : d.isDigit = true := hdigits d (by simp)
    rw [List.nil_append]
    unfold signedDigits
    split
    next heq => cases heq; cases hd
    next heq => cases heq; cases hd
    next => rw [htake]; rfl
  · exact congrArg (Prod.mk false) htake
  · exact congrArg (Prod.mk true) htake

theorem dropWhile_isStoiSpace {blanks sign digits rest : List Char}
    (hblanks : ∀ c ∈ blanks, isStoiSpace c = true) (hsign : IsSign sign)
    (hdigits : ∀ c ∈ digits, c.isDigit = true) (hne : digits ≠ []) :
    (blanks ++ (sign ++ (digits ++ rest))).dropWhile isStoiSpace = sign ++ (digits ++ rest) := by
  rw [List.dropWhile_append_of_pos hblanks]
  rcases hsign with rfl | rfl | rfl
  · obtain ⟨d, digits, rfl⟩ := List.exists_cons_of_ne_nil hne
    exact List.dropWhile_cons_of_neg (by simp [isStoiSpace_of_isDigit (hdigits d (by simp))])
  · rfl
  · rfl

/-- **What `std::stoi` reads**: blanks, a sign, digits, and nothing of what
follows. A number beyond an `int` throws. -/
theorem stoi_eq {blanks sign digits rest : List Char} (hblanks : ∀ c ∈ blanks, isStoiSpace c = true)
    (hsign : IsSign sign) (hdigits : ∀ c ∈ digits, c.isDigit = true) (hne : digits ≠ [])
    (hrest : ∀ c ∈ rest.head?, c.isDigit = false) {value : Int}
    (hvalue : value = if sign = ['-'] then -(Nat.ofDigitChars 10 digits 0 : Int)
      else Nat.ofDigitChars 10 digits 0) :
    stoi (String.ofList (blanks ++ (sign ++ (digits ++ rest)))) =
      if -2147483648 ≤ value ∧ value ≤ 2147483647 then some value else none := by
  rw [stoi_eq_intOf, String.toList_ofList, dropWhile_isStoiSpace hblanks hsign hdigits hne,
    signedDigits_eq hsign hdigits hne hrest, intOf, if_neg hne, ← Int.natCast_zero,
    foldl_digits hdigits]
  simp only [decide_eq_true_eq, ← hvalue]

/-- The digits of a number are read as the number. -/
theorem stoi_toString {n : Nat} (hn : n < 2147483648) : stoi (toString n) = some (n : Int) := by
  have hread := @stoi_eq [] [] (Nat.toDigits 10 n) [] (by simp) (.inl rfl)
    (fun c hc => Nat.isDigit_of_mem_toDigits (by decide) (by decide) hc)
    Nat.toDigits_ne_nil (by simp) n (by simp)
  rw [List.nil_append, List.nil_append, List.append_nil, if_pos (by omega)] at hread
  exact hread

/-! ## Spellings -/

/-- The port of a number is its remainder, if that is not 0. -/
theorem portOf_eq_some {text : String} {port : UInt16} :
    portOf text = some port ↔
      ∃ n, stoi text = some n ∧ port = UInt16.ofNat (n % 65536).toNat ∧ 0 < port := by
  rw [portOf]
  -- without a number the conversion throws, which the caller takes for no port
  cases stoi text with
  | none => simp
  | some n =>
    simp only [Option.some.injEq, exists_eq_left']
    split
    next hpos =>
      constructor
      · rintro ⟨⟩
        exact ⟨rfl, hpos⟩
      · rintro ⟨rfl, -⟩
        rfl
    next hzero =>
      refine iff_of_false nofun ?_
      rintro ⟨rfl, hpos⟩
      exact hzero hpos

/-- The port is 0 for the multiples of 65536. -/
theorem ofNat_pos_iff {n : Int} : 0 < UInt16.ofNat (n % 65536).toNat ↔ ¬ (65536 : Int) ∣ n := by
  rw [UInt16.lt_iff_toNat_lt, UInt16.toNat_ofNat']
  show 0 < (n % 65536).toNat % 65536 ↔ _
  omega

/-- A port in its own decimal spelling is read as it is. -/
theorem portOf_toString {port : UInt16} (hport : 0 < port) :
    portOf (toString port.toNat) = some port := by
  have hlt := port.toNat_lt
  refine portOf_eq_some.mpr ⟨port.toNat, stoi_toString (by omega), ?_, hport⟩
  have hsame : ((port.toNat : Int) % 65536).toNat = port.toNat := by omega
  rw [hsame, UInt16.ofNat_toNat]

theorem toList_endpoint (host text : String) :
    (host ++ ":" ++ text).toList = host.toList ++ ':' :: text.toList := by
  simp [String.toList_append]

/-- **What `parseEndpoint` takes apart**: a host that is not empty, the last
colon, and a text that `std::stoi` reads as a number which does not end as port
0. -/
theorem parseEndpoint_eq_some {s host : String} {port : UInt16} :
    parseEndpoint s = some (host, port) ↔
      ∃ text, s = host ++ ":" ++ text ∧ host ≠ "" ∧ ':' ∉ text.toList ∧
        portOf text = some port := by
  constructor
  -- the text is cut at its last colon
  · intro h
    by_cases hcolon : ':' ∈ s.toList
    · obtain ⟨front, back, hs, hback⟩ := exists_last hcolon
      rw [parseEndpoint_eq hs hback] at h
      split at h
      · cases h
      next hfront =>
        obtain ⟨port', hport, heq⟩ := Option.map_eq_some_iff.mp h
        cases heq
        refine ⟨String.ofList back, String.toList_inj.mp ?_, ?_, ?_, hport⟩
        · rw [toList_endpoint, String.toList_ofList, String.toList_ofList, hs]
        · intro hempty
          exact hfront (by simpa using congrArg String.toList hempty)
        · rwa [String.toList_ofList]
    · rw [parseEndpoint_of_not_mem hcolon] at h
      cases h
  · rintro ⟨text, rfl, hhost, htext, hport⟩
    have hfront : host.toList ≠ [] := fun hnil => hhost (String.toList_eq_nil_iff.mp hnil)
    rw [parseEndpoint_eq (toList_endpoint host text) htext, if_neg hfront, String.ofList_toList,
      String.ofList_toList, hport]
    rfl

end PeerManager

/-! ## The spelling of an endpoint -/

/-- The decimal spelling of a port. -/
def PlainPort (text : String) : Prop := ∃ port : UInt16, 0 < port ∧ text = toString port.toNat

/-- A text is an endpoint exactly when it is the spelling of it. -/
def Canonical (s : String) : Prop :=
  ∀ host port, parseEndpoint s = some (host, port) ↔
    host ≠ "" ∧ 0 < port ∧ s = makeEndpoint host port

/-- What is behind the last colon is the plain spelling of a port, is no `int`
for `std::stoi`, or is cut to 0. -/
def PlainOrRefused (s : String) : Prop :=
  ∀ host text n, s = host ++ ":" ++ text → host ≠ "" → ':' ∉ text.toList →
    stoi text = some n → (65536 : Int) ∣ n ∨ PlainPort text

variable {s s' host : String} {port : UInt16}

theorem not_mem_digits (n : Nat) : ':' ∉ (toString n).toList := by
  intro h
  exact absurd (Nat.isDigit_of_mem_toDigits (by decide) (by decide)
    (by simpa using h : ':' ∈ Nat.toDigits 10 n)) (by decide)

/-- The spelling of an endpoint is taken. -/
theorem parseEndpoint_makeEndpoint (hhost : host ≠ "") (hport : 0 < port) :
    parseEndpoint (makeEndpoint host port) = some (host, port) :=
  parseEndpoint_eq_some.mpr ⟨_, rfl, hhost, not_mem_digits _, portOf_toString hport⟩

/-- A text is canonical exactly when its port is spelled plainly or refused. -/
theorem canonical_iff (s : String) : Canonical s ↔ PlainOrRefused s := by
  constructor
  · rintro h host text n rfl hhost htext hn
    by_cases hzero : (65536 : Int) ∣ n
    · exact .inl hzero
    · -- the text is accepted, so that it is the spelling of what is read
      have hpos := ofNat_pos_iff.mpr hzero
      have hparsed := parseEndpoint_eq_some.mpr
        ⟨text, rfl, hhost, htext, portOf_eq_some.mpr ⟨n, hn, rfl, hpos⟩⟩
      have hsame := ((h _ _).mp hparsed).2.2
      exact .inr ⟨_, hpos, (String.append_right_inj _).mp hsame⟩
  · intro h host port
    constructor
    · intro hparsed
      obtain ⟨text, rfl, hhost, htext, hport⟩ := parseEndpoint_eq_some.mp hparsed
      obtain ⟨n, hn, rfl, hpos⟩ := portOf_eq_some.mp hport
      refine ⟨hhost, hpos, ?_⟩
      rcases h host text n rfl hhost htext hn with hzero | ⟨plain, hplain, rfl⟩
      · exact absurd hzero (ofNat_pos_iff.mp hpos)
      · -- the plain spelling has been read as the number it spells
        have hread := portOf_toString hplain
        rw [hport, Option.some.injEq] at hread
        rw [makeEndpoint, hread]
    · rintro ⟨hhost, hport, rfl⟩
      exact parseEndpoint_makeEndpoint hhost hport

/-- **When an endpoint has one spelling.** A text is taken exactly as the
spelling of its host and port when its port is spelled plainly or refused; and
two such texts that are taken for the same endpoint are the same text. -/
theorem endpoint_canonical_iff (s : String) :
    (Canonical s ↔ PlainOrRefused s) ∧
      ∀ s' host port, PlainOrRefused s → PlainOrRefused s' →
        parseEndpoint s = some (host, port) → parseEndpoint s' = some (host, port) → s = s' := by
  refine ⟨canonical_iff s, fun s' host port hs hs' h h' => ?_⟩
  have hspelled := (((canonical_iff s).mpr hs host port).mp h).2.2
  have hspelled' := (((canonical_iff s').mpr hs' host port).mp h').2.2
  rw [hspelled, hspelled']

/-- A plus sign is no part of the spelling. -/
theorem endpoint_canonical_counterexample : ¬ ∀ s, Canonical s := by
  intro h
  have hparsed : parseEndpoint "10.0.0.2:+9001" = some ("10.0.0.2", 9001) := by decide +kernel
  have hspelled := ((h _ _ _).mp hparsed).2.2
  exact absurd hspelled (by decide +kernel)

/-! ## Other spellings -/

theorem colon_not_mem_blanks {blanks : List Char} (h : ∀ c ∈ blanks, isStoiSpace c = true) :
    ':' ∉ blanks :=
  fun hmem => absurd (h _ hmem) (by decide)

/-- **The spellings of an endpoint**: blanks, a plus sign, zeros, a number that
the port is the remainder of, and any text behind it. -/
theorem parseEndpoint_respelled (hhost : host ≠ "") (hport : 0 < port)
    {blanks sign rest : List Char} (hblanks : ∀ c ∈ blanks, isStoiSpace c = true)
    (hsign : sign = [] ∨ sign = ['+']) (zeros k : Nat)
    (hint : port.toNat + 65536 * k ≤ 2147483647) (hrest : ∀ c ∈ rest.head?, c.isDigit = false)
    (hcolon : ':' ∉ rest) :
    parseEndpoint (host ++ ":" ++ String.ofList (blanks ++ (sign ++
      (List.replicate zeros '0' ++ Nat.toDigits 10 (port.toNat + 65536 * k) ++ rest)))) =
        some (host, port) := by
  have hdecimals : ∀ c ∈ Nat.toDigits 10 (port.toNat + 65536 * k), c.isDigit = true :=
    fun c hc => Nat.isDigit_of_mem_toDigits (by decide) (by decide) hc
  have hdigits : ∀ c ∈ List.replicate zeros '0' ++ Nat.toDigits 10 (port.toNat + 65536 * k),
      c.isDigit = true := by
    intro c hc
    rcases List.mem_append.mp hc with hc | hc
    · rw [List.eq_of_mem_replicate hc]
      rfl
    · exact hdecimals c hc
  have hplus : sign ≠ ['-'] := by rcases hsign with rfl | rfl <;> decide
  have hvalue : Nat.ofDigitChars 10 (List.replicate zeros '0' ++
      Nat.toDigits 10 (port.toNat + 65536 * k)) 0 = port.toNat + 65536 * k := by
    rw [Nat.ofDigitChars_append, Nat.ofDigitChars_replicate_zero, Nat.mul_zero,
      Nat.ofDigitChars_ten_toDigits]
  have hstoi := stoi_eq hblanks (hsign.imp_right .inl) hdigits (by simp) hrest (if_neg hplus).symm
  rw [hvalue] at hstoi
  rw [if_pos (by omega)] at hstoi
  have hlt := port.toNat_lt
  have hcut : port = UInt16.ofNat (((port.toNat + 65536 * k : Nat) : Int) % 65536).toNat := by
    have hrem : (((port.toNat + 65536 * k : Nat) : Int) % 65536).toNat = port.toNat := by omega
    rw [hrem, UInt16.ofNat_toNat]
  refine parseEndpoint_eq_some.mpr ⟨_, rfl, hhost, ?_, portOf_eq_some.mpr ⟨_, hstoi, hcut, hport⟩⟩
  -- no part of the text has a colon
  have hsigncolon : ':' ∉ sign := by rcases hsign with rfl | rfl <;> decide
  rw [String.toList_ofList, List.mem_append, List.mem_append, List.mem_append]
  rintro (hc | hc | hc | hc)
  · exact colon_not_mem_blanks hblanks hc
  · exact hsigncolon hc
  · exact absurd (hdigits _ hc) (by decide)
  · exact hcolon hc

section Discovery

variable {S : NodeSetup} {env : Env} {node : Node}

/-- Of an endpoint that can be parsed, on another port than its own, a node asks whether
its text is banned or in quarantine. -/
theorem discovers_of_parse (hparse : parseEndpoint s = some (host, port)) (hport : port ≠ S.port)
    (hown : s ≠ makeEndpoint S.identity.advertisedIp S.identity.port) :
    node.discovers S env s =
      !(node.peerScorer.isBanned s || node.peerManager.isQuarantined env.steady s) := by
  have hne : s ≠ "" := by
    rintro rfl
    rw [parseEndpoint_of_not_mem (by simp)] at hparse
    cases hparse
  rw [Node.discovers, if_neg (not_or.mpr ⟨hne, hown⟩), hparse]
  exact if_neg hport

/-- **A quarantined peer is discovered** under another spelling. -/
theorem isDiscovered_respelled (hparse : parseEndpoint s = some (host, port))
    (hs : s ≠ makeEndpoint host port) (hport : port ≠ S.port)
    (hown : s ≠ makeEndpoint S.identity.advertisedIp S.identity.port)
    (hbanned : node.peerScorer.isBanned s = false)
    (hquarantined : node.peerManager.isQuarantined env.steady s = false) (t : Instant)
    (seconds : Int) :
    (isDiscovered S env s [] { node with
      peerManager := node.peerManager.quarantinePeer t (makeEndpoint host port) seconds }).1 =
        .returned true := by
  have hother : (node.peerManager.quarantinePeer t (makeEndpoint host port) seconds).isQuarantined
      env.steady s = false := by
    rw [PeerManager.isQuarantined, PeerManager.quarantinePeer, getElem?_insert_eq,
      if_neg (Ne.symm hs)]
    exact hquarantined
  rw [NodeM.isDiscovered_run, discovers_of_parse hparse hport hown]
  simp only [hbanned, hother]
  rfl

end Discovery

end PersonalBlockchain
