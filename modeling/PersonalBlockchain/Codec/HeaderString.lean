import Std.Data.String.ToNat
import Mathlib.Data.List.Forall2
import PersonalBlockchain.Model.Block

/-!
# Personal blockchain — what a block hash is the digest of

`calculateHash` writes six fields one after the other, with nothing between
them. The index ends where the year of the timestamp begins and the digests
have a fixed length, but the nonce and the difficulty behind them are two
numbers in a row: their digits can be shared out in another way.

## Results

* `sameHeader_of_decimals` — with difficulties of equally many digits every
  field stands in its place;
* `header_string_unambiguous_iff` — blocks with one header string agree on its
  fields exactly then;
* `header_string_counterexample` — nonce 12 and difficulty 3 read as nonce 1 and
  difficulty 23.
-/

namespace PersonalBlockchain

/-- The form of a timestamp as the node writes it, where `0` stands for any
digit. -/
def timestampForm : List Char := "0000-00-00T00:00:00Z".toList

/-- The text has the form of a timestamp. -/
def HasTimestampForm (s : String) : Prop :=
  List.Forall₂ (fun form c => if form = '0' then c.isDigit = true else c = form)
    timestampForm s.toList

/-- A digest in hex, in letters of either case: `sha256` writes small ones, and a
block from a peer may have others. -/
structure IsHexDigest (s : String) : Prop where
  length : s.toList.length = 64
  hex : ∀ c ∈ s.toList, (c.isDigit || ('a' ≤ c && c ≤ 'f') || ('A' ≤ c && c ≤ 'F')) = true

/-- The number of decimal digits. -/
def decimals (n : Nat) : Nat := (toString n).toList.length

namespace Block

/-- The texts of a header have their usual forms: those of every block the node
makes, while a block from a peer may have any text in them. -/
structure FixedForm (b : Block) : Prop where
  timestamp : HasTimestampForm b.timestamp
  merkleRoot : IsHexDigest b.merkleRoot
  previousHash : IsHexDigest b.previousHash

/-- The fields that `calculateHash` writes are the same in both blocks. -/
structure SameHeader (b b' : Block) : Prop where
  index : b.index = b'.index
  timestamp : b.timestamp = b'.timestamp
  merkleRoot : b.merkleRoot = b'.merkleRoot
  previousHash : b.previousHash = b'.previousHash
  nonce : b.nonce = b'.nonce
  difficulty : b.difficulty = b'.difficulty

/-- The header without the index, from the timestamp on. -/
def headerRest (b : Block) : List Char :=
  b.timestamp.toList ++ (b.merkleRoot.toList ++ (b.previousHash.toList ++
    ((toString b.nonce.toNat).toList ++ (toString b.difficulty.toNat).toList)))

/-- The header is the digits of the index, and the rest. -/
theorem headerString_toList (b : Block) :
    b.headerString.toList = (toString b.index.toNat).toList ++ b.headerRest := by
  simp only [headerString, headerRest, String.toList_append, List.append_assoc]

/-- A timestamp begins with a year of four digits and a hyphen. -/
theorem year_of_form {s : String} (h : HasTimestampForm s) :
    ∃ year rest, s.toList = year ++ '-' :: rest ∧ year.length = 4 ∧
      ∀ c ∈ year, c.isDigit = true := by
  have hform : timestampForm = '0' :: '0' :: '0' :: '0' :: '-' :: "00-00T00:00:00Z".toList := by
    decide +kernel
  rw [HasTimestampForm, hform] at h
  -- the five characters that end the year, one after another
  obtain ⟨c₁, _, h₁, hrest₁, heq⟩ := List.forall₂_cons_left_iff.mp h
  obtain ⟨c₂, _, h₂, hrest₂, rfl⟩ := List.forall₂_cons_left_iff.mp hrest₁
  obtain ⟨c₃, _, h₃, hrest₃, rfl⟩ := List.forall₂_cons_left_iff.mp hrest₂
  obtain ⟨c₄, _, h₄, hrest₄, rfl⟩ := List.forall₂_cons_left_iff.mp hrest₃
  obtain ⟨c₅, rest, h₅, -, rfl⟩ := List.forall₂_cons_left_iff.mp hrest₄
  refine ⟨[c₁, c₂, c₃, c₄], rest, ?_, rfl, ?_⟩
  · rw [heq, show c₅ = '-' from h₅]
    rfl
  · simp only [List.mem_cons, List.not_mem_nil, or_false, forall_eq_or_imp, forall_eq]
    exact ⟨h₁, h₂, h₃, h₄⟩

theorem isDigit_toString {n : Nat} {c : Char} (h : c ∈ (toString n).toList) :
    c.isDigit = true := by
  rw [show toString n = Nat.repr n from rfl, Nat.repr_eq_ofList_toDigits,
    String.toList_ofList] at h
  exact Nat.isDigit_of_mem_toDigits (by decide) (by decide) h

/-- The header begins with the digits of the index and of the year, so the first
hyphen tells how long the index is. -/
theorem takeWhile_headerString {b : Block} (h : HasTimestampForm b.timestamp) :
    (b.headerString.toList.takeWhile Char.isDigit).length = decimals b.index.toNat + 4 := by
  obtain ⟨year, rest, hyear, hlen, hdigits⟩ := year_of_form h
  rw [headerString_toList, headerRest, hyear,
    List.takeWhile_append_of_pos fun c hc => isDigit_toString hc, List.append_assoc,
    List.takeWhile_append_of_pos hdigits]
  simp [decimals, hlen]

theorem SameHeader.headerString {b b' : Block} (h : SameHeader b b') :
    b.headerString = b'.headerString := by
  obtain ⟨hi, ht, hm, hp, hn, hd⟩ := h
  simp only [Block.headerString, hi, ht, hm, hp, hn, hd]

theorem toNat_eq_of_digits {m n : Nat} (h : (toString m).toList = (toString n).toList) : m = n :=
  Nat.repr_injective (String.toList_inj.mp h)

/-- All but the last two fields stand in a fixed place. With difficulties of
equally many digits so do those, and every field can be read off. -/
theorem sameHeader_of_decimals {b b' : Block} (hb : b.FixedForm) (hb' : b'.FixedForm)
    (hheader : b.headerString = b'.headerString)
    (hdecimals : decimals b.difficulty.toNat = decimals b'.difficulty.toNat) :
    SameHeader b b' := by
  -- the first hyphen stands in the same place
  have hindex : decimals b.index.toNat = decimals b'.index.toNat := by
    have hdigits := takeWhile_headerString hb.timestamp
    rw [hheader, takeWhile_headerString hb'.timestamp] at hdigits
    omega
  have hlists := congrArg String.toList hheader
  rw [headerString_toList, headerString_toList] at hlists
  obtain ⟨hi, hlists⟩ := List.append_inj hlists hindex
  obtain ⟨ht, hlists⟩ := List.append_inj hlists
    (hb.timestamp.length_eq.symm.trans hb'.timestamp.length_eq)
  obtain ⟨hm, hlists⟩ := List.append_inj hlists
    (hb.merkleRoot.length.trans hb'.merkleRoot.length.symm)
  obtain ⟨hp, hlists⟩ := List.append_inj hlists
    (hb.previousHash.length.trans hb'.previousHash.length.symm)
  -- what is left are the nonce and the difficulty
  obtain ⟨hn, hd⟩ := List.append_inj' hlists hdecimals
  exact ⟨UInt64.toNat_inj.mp (toNat_eq_of_digits hi), String.toList_inj.mp ht,
    String.toList_inj.mp hm, String.toList_inj.mp hp,
    UInt64.toNat_inj.mp (toNat_eq_of_digits hn), UInt32.toNat_inj.mp (toNat_eq_of_digits hd)⟩

end Block

open Block

/-- **The header string.** Blocks of the usual form with the same header string,
and so with the same hash, agree on every field of it exactly when their
difficulties have equally many digits. The other four fields are never in doubt.
-/
theorem header_string_unambiguous_iff {b b' : Block} (hb : b.FixedForm) (hb' : b'.FixedForm)
    (hheader : b.headerString = b'.headerString) :
    SameHeader b b' ↔ decimals b.difficulty.toNat = decimals b'.difficulty.toNat :=
  ⟨fun h => by rw [h.difficulty], sameHeader_of_decimals hb hb' hheader⟩

/-! ## A digit of the nonce in the difficulty -/

section Sample

/-- A block with nonce 12 and difficulty 3. -/
def twelveThree : Block where
  index := 1
  timestamp := "2026-03-14T12:00:00Z"
  previousHash := "60a5dfce87208006f85d04931eb98b6e3a61eb839be65fc5da694f498336755b"
  merkleRoot := "b53fdd7c124eb7025d8de15f5e6692a501376a8badf87324c3b8ca19c9aab315"
  nonce := 12
  difficulty := 3

/-- The same block with nonce 1 and difficulty 23. -/
def oneTwentyThree : Block :=
  { twelveThree with nonce := 1, difficulty := 23 }

theorem twelveThree_fixedForm : twelveThree.FixedForm where
  timestamp := by
    unfold HasTimestampForm
    decide +kernel
  merkleRoot := ⟨by decide +kernel, List.all_eq_true.mp (by decide +kernel)⟩
  previousHash := ⟨by decide +kernel, List.all_eq_true.mp (by decide +kernel)⟩

end Sample

/-- The hash of the two blocks is the same, their difficulties are not: one
string stands for two blocks. -/
theorem header_string_counterexample :
    ¬ ∀ b b' : Block, b.FixedForm → b'.FixedForm → b.headerString = b'.headerString →
      SameHeader b b' := by
  intro h
  have hsame := h twelveThree oneTwentyThree twelveThree_fixedForm
    ⟨twelveThree_fixedForm.timestamp, twelveThree_fixedForm.merkleRoot,
      twelveThree_fixedForm.previousHash⟩ (by decide +kernel)
  exact absurd hsame.difficulty (by decide)

/-- The theorem at the two sample blocks. -/
theorem header_string_unambiguous_shared :
    SameHeader twelveThree oneTwentyThree ↔
      decimals twelveThree.difficulty.toNat = decimals oneTwentyThree.difficulty.toNat :=
  header_string_unambiguous_iff twelveThree_fixedForm
    ⟨twelveThree_fixedForm.timestamp, twelveThree_fixedForm.merkleRoot,
      twelveThree_fixedForm.previousHash⟩ (by decide +kernel)

end PersonalBlockchain
