import Mathlib.Data.Rat.Floor

/-!
# Personal blockchain — JSON values

The part of the vendored `nlohmann::json` the decoders use: a value tree,
`value(key, default)`, `contains`, and iteration. A parsed number is an
unsigned integer, a (negative) integer or a double; a double is modelled by
the rational number it stands for. A failed access throws, so the accessors
return `Except`.
-/

namespace PersonalBlockchain

/-- A parsed JSON value, with the three kinds of number the parser tells apart. -/
inductive Json
  | null
  | boolean (b : Bool)
  | numberUnsigned (n : UInt64)
  | numberInteger (n : Int64)
  | numberFloat (q : ℚ)
  | string (s : String)
  | array (items : List Json)
  /-- keys are unique, as in the `std::map` behind an object -/
  | object (members : List (String × Json))

/-- The exceptions the decoders let out, by their nlohmann ids: a value of the
wrong type (302), `value()` on something that is not an object (306). -/
inductive JsonError
  | typeError302
  | typeError306
  deriving DecidableEq, Repr

/-- A computation goes on only from a value. -/
theorem bind_eq_ok {ε α β : Type} {x : Except ε α} {f : α → Except ε β} {b : β} :
    (x >>= f) = .ok b ↔ ∃ a, x = .ok a ∧ f a = .ok b := by
  cases x with
  | error e => simp [bind, Except.bind]
  | ok a => simp [bind, Except.bind]

/-- An option from a computation is there when the computation returned. -/
theorem toOption_eq_some {ε α : Type} {x : Except ε α} {a : α} :
    x.toOption = some a ↔ x = .ok a := by
  cases x <;> simp [Except.toOption]

/-- What decoding one by one gives, each element satisfies. -/
theorem mapM_ok_forall {ε α β : Type} {f : α → Except ε β} {P : β → Prop}
    (hf : ∀ a b, f a = .ok b → P b) {as : List α} {bs : List β} (h : as.mapM f = .ok bs) :
    ∀ b ∈ bs, P b := by
  induction as generalizing bs with
  | nil =>
    cases h
    simp
  | cons a as ih =>
    rw [List.mapM_cons] at h
    obtain ⟨b, hb, h⟩ := bind_eq_ok.mp h
    obtain ⟨bs', hbs', h⟩ := bind_eq_ok.mp h
    cases h
    exact List.forall_mem_cons.mpr ⟨hf a b hb, ih hbs'⟩

/-- Decoding one more entry at the end. -/
theorem mapM_concat_ok {ε α β : Type} {f : α → Except ε β} {as : List α} {a : α} {bs : List β} :
    (as ++ [a]).mapM f = .ok bs ↔
      ∃ front b, as.mapM f = .ok front ∧ f a = .ok b ∧ bs = front ++ [b] := by
  rw [List.mapM_append, List.mapM_cons, List.mapM_nil]
  constructor
  -- the front is decoded first, and its error would be the answer
  · intro h
    obtain ⟨front, hfront, h⟩ := bind_eq_ok.mp h
    obtain ⟨last, hlast, h⟩ := bind_eq_ok.mp h
    obtain ⟨b, hb, hpure⟩ := bind_eq_ok.mp hlast
    cases hpure
    cases h
    exact ⟨front, b, hfront, hb, rfl⟩
  · rintro ⟨front, b, hfront, hb, rfl⟩
    rw [hfront, hb]
    rfl

/-- Decoding one by one what was encoded one by one. -/
theorem mapM_encoded {ε α β γ : Type} {encode : α → β} {decode : β → Except ε γ} {back : α → γ}
    (h : ∀ a, decode (encode a) = .ok (back a)) (as : List α) :
    (as.map encode).mapM decode = .ok (as.map back) := by
  induction as with
  | nil => rfl
  | cons a as ih =>
    rw [List.map_cons, List.mapM_cons, h, ih]
    rfl

namespace Json

/-- `j.find(key)` on an object: keys are unique, so the first one is the one. -/
def find (members : List (String × Json)) (key : String) : Option Json :=
  members.lookup key

/-- `j.value(key, dflt)`, decoding a present member with `get`: the default is
for a missing member only, a member of the wrong type throws. -/
def value {α : Type} (get : Json → Except JsonError α) (j : Json) (key : String) (dflt : α) :
    Except JsonError α :=
  match j with
  | object members =>
    match find members key with
    | some v => get v
    | none => .ok dflt
  | _ => .error .typeError306

/-- `get<std::string>()`. -/
def getString : Json → Except JsonError String
  | string s => .ok s
  | _ => .error .typeError302

/-- `static_cast` of a double to an unsigned integer: the fraction is dropped.
Doubles outside the range of the target are undefined in C++. -/
def truncate (q : ℚ) : Nat := ⌊q⌋.toNat

/-- `get<uint64_t>()`. A negative number wraps around. -/
def getUInt64 : Json → Except JsonError UInt64
  | numberUnsigned n => .ok n
  | numberInteger n => .ok n.toUInt64
  | numberFloat q => .ok (UInt64.ofNat (truncate q))
  | _ => .error .typeError302

/-- `get<uint32_t>()`; the overload for other arithmetic types also takes
booleans. -/
def getUInt32 : Json → Except JsonError UInt32
  | numberUnsigned n => .ok n.toUInt32
  | numberInteger n => .ok n.toUInt64.toUInt32
  | numberFloat q => .ok (UInt32.ofNat (truncate q))
  | boolean b => .ok (if b then 1 else 0)
  | _ => .error .typeError302

/-- `get<int>()`; booleans count as numbers here too. -/
def getInt : Json → Except JsonError Int32
  | numberUnsigned n => .ok n.toUInt32.toInt32
  | numberInteger n => .ok n.toInt32
  | numberFloat q => .ok (Int32.ofInt (q.num.tdiv q.den))
  | boolean b => .ok (if b then 1 else 0)
  | _ => .error .typeError302

/-- `j[key]` when `j.contains(key) && j[key].is_array()`, else nothing. -/
def arrayMember (j : Json) (key : String) : List Json :=
  match j with
  | object members =>
    match find members key with
    | some (array items) => items
    | _ => []
  | _ => []

/-- What `for (const auto &item : j)` visits: the items of an array, the
values of an object, nothing for `null`, and any other value itself. -/
def iterate : Json → List Json
  | null => []
  | array items => items
  | object members => members.map Prod.snd
  | j => [j]

/-! ## Equality

Members are compared in their order, which is that of the keys. -/

mutual

/-- Whether two values are the same, the types of their numbers included. -/
def beq : Json → Json → Bool
  | null, null => true
  | boolean b, boolean b' => b = b'
  | numberUnsigned n, numberUnsigned n' => n = n'
  | numberInteger n, numberInteger n' => n = n'
  | numberFloat q, numberFloat q' => q = q'
  | string s, string s' => s = s'
  | array items, array items' => beqItems items items'
  | object members, object members' => beqMembers members members'
  | _, _ => false

/-- Item by item. -/
def beqItems : List Json → List Json → Bool
  | [], [] => true
  | j :: js, j' :: js' => beq j j' && beqItems js js'
  | _, _ => false

/-- Member by member. -/
def beqMembers : List (String × Json) → List (String × Json) → Bool
  | [], [] => true
  | m :: ms, m' :: ms' => beqMember m m' && beqMembers ms ms'
  | _, _ => false

/-- One key and its value. -/
def beqMember : String × Json → String × Json → Bool
  | (key, j), (key', j') => key = key' && beq j j'

end

mutual

/-- The comparison decides equality, by mutual induction over values, lists of
items and lists of members. -/
theorem beq_iff : ∀ j j' : Json, beq j j' = true ↔ j = j'
  | null, j' => by cases j' <;> simp [beq]
  | boolean b, j' => by cases j' <;> simp [beq]
  | numberUnsigned n, j' => by cases j' <;> simp [beq]
  | numberInteger n, j' => by cases j' <;> simp [beq]
  | numberFloat q, j' => by cases j' <;> simp [beq]
  | string s, j' => by cases j' <;> simp [beq]
  | array items, j' => by cases j' <;> simp [beq, beqItems_iff items]
  | object members, j' => by cases j' <;> simp [beq, beqMembers_iff members]

theorem beqItems_iff : ∀ js js' : List Json, beqItems js js' = true ↔ js = js'
  | [], js' => by cases js' <;> simp [beqItems]
  | j :: js, js' => by cases js' <;> simp [beqItems, beq_iff j, beqItems_iff js]

theorem beqMembers_iff : ∀ ms ms' : List (String × Json), beqMembers ms ms' = true ↔ ms = ms'
  | [], ms' => by cases ms' <;> simp [beqMembers]
  | m :: ms, ms' => by cases ms' <;> simp [beqMembers, beqMember_iff m, beqMembers_iff ms]

theorem beqMember_iff : ∀ m m' : String × Json, beqMember m m' = true ↔ m = m'
  | (key, j), (key', j') => by simp [beqMember, beq_iff j]

end

instance : DecidableEq Json := fun j j' => decidable_of_iff _ (beq_iff j j')

end Json

end PersonalBlockchain
