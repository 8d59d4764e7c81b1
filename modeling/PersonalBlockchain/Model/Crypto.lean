import Mathlib.Data.List.Nodup

/-!
# Personal blockchain — hashing and signatures

The ledger uses two functions of `namespace crypto`: `sha256`, which returns
the lowercase hex digest of a string, and `verify`, which checks an ECDSA
signature over secp256k1. Both are thin wrappers around OpenSSL, which is not
part of the repository, so the model takes them as the two fields of a
`Crypto`. What a theorem relies on about them (no collision, non-empty
digests) is a named hypothesis of that theorem.
-/

namespace PersonalBlockchain

/-- The cryptographic functions the ledger calls. Nothing is assumed of them
here: the results that need a digest without collisions, or a signature that
nobody else can make, say so. -/
structure Crypto where
  /-- `crypto::sha256`: lowercase hex SHA-256 digest -/
  sha256 : String → String
  /-- `crypto::verify(message, signatureHex, publicKeyHex)` -/
  verify : String → String → String → Bool

/-- `s.substr(0, n)`: the first `n` characters, or all of a shorter string. -/
def substr0 (s : String) (n : Nat) : String :=
  String.ofList (s.toList.take n)

/-! ## Tabulated digests

A `Crypto` given by finitely many digests and finitely many valid signatures.
Strings outside the table are mapped injectively to strings that are no hex
digests, so a table without a repeated digest is collision free. -/

namespace Crypto

/-- The digest the table lists for `s`, else a string starting with `?`. -/
def tableDigest (digests : List (String × String)) (s : String) : String :=
  match digests.lookup s with
  | some d => d
  | none => "?" ++ s

/-- The `Crypto` of a table of digests and a list of valid `(message, signature,
public key)` triples, in which runs on concrete blocks can be evaluated. -/
def ofTable (digests : List (String × String)) (signed : List (String × String × String)) :
    Crypto where
  sha256 := tableDigest digests
  verify message signature publicKey := signed.contains (message, signature, publicKey)

/-- No two strings of the table share a digest, and no digest is empty or starts
with `?`, as the digests of all other strings do. -/
structure TableOk (digests : List (String × String)) : Prop where
  distinct : (digests.map Prod.snd).Nodup
  nonempty : ∀ d ∈ digests.map Prod.snd, d ≠ ""
  digest : ∀ d ∈ digests.map Prod.snd, d.toList.head? ≠ some '?'

theorem mem_of_lookup {digests : List (String × String)} {s d : String}
    (h : digests.lookup s = some d) : (s, d) ∈ digests := by
  induction digests with
  | nil => cases h
  | cons entry digests ih =>
    obtain ⟨k, v⟩ := entry
    rw [List.lookup_cons] at h
    -- the first entry, or one behind it
    by_cases hk : s = k
    · simp only [hk, beq_self_eq_true, Option.some.injEq] at h
      simp [hk, h]
    · rw [beq_false_of_ne hk] at h
      exact List.mem_cons_of_mem _ (ih h)

/-- In a table with numbered keys, a key that none before it equals finds its
own entry. -/
theorem lookup_mapIdx (key : Nat → String) {digests : List String} {i : Nat}
    (hi : i < digests.length) (hkey : ∀ j < i, key i ≠ key j) :
    (digests.mapIdx fun i d => (key i, d)).lookup (key i) = some digests[i] := by
  induction digests generalizing key i with
  | nil => exact absurd hi (Nat.not_lt_zero i)
  | cons d digests ih =>
    rw [List.mapIdx_cons]
    cases i with
    | zero => exact List.lookup_cons_self
    | succ i =>
      rw [List.lookup_cons, beq_false_of_ne (hkey 0 i.succ_pos)]
      exact ih (fun i => key (i + 1)) (Nat.lt_of_succ_lt_succ hi)
        fun j hj => hkey (j + 1) (Nat.succ_lt_succ hj)

/-- Such a table is free of collisions: two strings with one digest are the same
string, whether both are listed, one of them or none. -/
theorem TableOk.injective {digests : List (String × String)} (h : TableOk digests) :
    Function.Injective (tableDigest digests) := by
  have hdigest : ∀ {s d}, digests.lookup s = some d → ∀ t, d ≠ "?" ++ t := by
    rintro s d hs t rfl
    refine h.digest _ (List.mem_map_of_mem (mem_of_lookup hs)) ?_
    simp
  -- listed or not, each of the two
  intro s t hst
  unfold tableDigest at hst
  split at hst
  · rename_i d hs
    split at hst
    · rename_i d' ht
      subst hst
      have hsame := List.inj_on_of_nodup_map h.distinct (mem_of_lookup hs) (mem_of_lookup ht) rfl
      exact congrArg Prod.fst hsame
    · exact absurd hst (hdigest hs t)
  · split at hst
    · rename_i d' ht
      exact absurd hst.symm (hdigest ht s)
    · exact (String.append_right_inj _).mp hst

theorem TableOk.digest_ne {digests : List (String × String)} (h : TableOk digests) (s : String) :
    tableDigest digests s ≠ "" := by
  unfold tableDigest
  split
  · rename_i d hs
    exact h.nonempty d (List.mem_map_of_mem (mem_of_lookup hs))
  · intro hempty
    have hlist := congrArg String.toList hempty
    simp at hlist

end Crypto

end PersonalBlockchain
