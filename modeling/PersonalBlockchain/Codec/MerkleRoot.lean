import PersonalBlockchain.Ledger.Refinement

/-!
# Personal blockchain — what a Merkle root commits to

On a level with an odd number of hashes `computeMerkleRoot` joins the last one
with itself, and nothing tells the levels apart. A block that names its last
transaction twice therefore has the root of the block that names it once, and so
has a block whose identifiers are the hashes over the identifiers of the other.
Such lists have different lengths; lists of one length are told apart.

## Results

* `txIDs_eq_of_root` — lists of one length with one root have the same
  identifiers;
* `repeated_last_same_root` — the last transaction named twice;
* `level_same_root` — the hashes of a level as identifiers;
* `merkle_root_commits_iff` — lists with one root have the same identifiers
  exactly when they are equally long.
-/

namespace PersonalBlockchain

/-- The strings that are hashed on the way to the Merkle root. -/
def merkleHashed (C : Crypto) (txs : List Transaction) : List String :=
  (PairTree.joined (merkleNode C) txs.length (txs.map (merkleLeaf C))).map fun p => p.1 ++ p.2

/-- The digests of these strings have 64 characters, and no two are the same:
what is assumed of SHA-256, on the strings that occur and on no others. -/
structure Crypto.TellsApart (C : Crypto) (strings : List String) : Prop where
  length : ∀ s ∈ strings, (C.sha256 s).toList.length = 64
  injective : ∀ s ∈ strings, ∀ t ∈ strings, C.sha256 s = C.sha256 t → s = t

/-- The identifiers are there and have the length of a digest, as those of every
verified transfer have. -/
structure DigestIDs (txs : List Transaction) : Prop where
  ne_nil : txs ≠ []
  length : ∀ tx ∈ txs, tx.txID.toList.length = 64

/-- With identifiers there the leaves are the identifiers. -/
theorem DigestIDs.leaves {txs : List Transaction} (h : DigestIDs txs) (C : Crypto) :
    txs.map (merkleLeaf C) = txs.map Transaction.txID := by
  refine List.map_congr_left fun tx htx => ?_
  have hne : tx.txID ≠ "" := by
    intro hempty
    have hlen := h.length tx htx
    simp [hempty] at hlen
  rw [merkleLeaf, if_neg hne]

/-- All that is joined has 64 characters. -/
theorem DigestIDs.joined_length {C : Crypto} {txs : List Transaction} (h : DigestIDs txs)
    (hlength : ∀ s ∈ merkleHashed C txs, (C.sha256 s).toList.length = 64) :
    ∀ p ∈ PairTree.joined (merkleNode C) txs.length (txs.map (merkleLeaf C)),
      p.1.toList.length = 64 ∧ p.2.toList.length = 64 := by
  refine PairTree.forall_joined (P := fun s : String => s.toList.length = 64) _ _ ?_ ?_
  · rw [h.leaves]
    intro s hs
    obtain ⟨tx, htx, rfl⟩ := List.mem_map.mp hs
    exact h.length tx htx
  · exact fun p hp _ _ => hlength _ (List.mem_map_of_mem hp)

/-- Two strings of one length that are joined can be read off the whole: 64
characters and the rest. -/
theorem append_pair_inj {p q : String × String} (hlen : p.1.toList.length = q.1.toList.length)
    (h : p.1 ++ p.2 = q.1 ++ q.2) : p = q := by
  have hlists := congrArg String.toList h
  rw [String.toList_append, String.toList_append] at hlists
  obtain ⟨hfst, hsnd⟩ := List.append_inj hlists hlen
  exact Prod.ext (String.toList_inj.mp hfst) (String.toList_inj.mp hsnd)

/-- Hashing tells apart what is joined for two roots, as the strings that are
hashed for them are told apart. -/
theorem merkleNode_tellsApart {C : Crypto} {txs txs' : List Transaction} (h : DigestIDs txs)
    (h' : DigestIDs txs') (hC : C.TellsApart (merkleHashed C txs ++ merkleHashed C txs')) :
    PairTree.TellsApart (merkleNode C)
      (PairTree.joined (merkleNode C) txs.length (txs.map (merkleLeaf C)) ++
        PairTree.joined (merkleNode C) txs'.length (txs'.map (merkleLeaf C))) := by
  have hlength := h.joined_length fun s hs => hC.length s (List.mem_append_left _ hs)
  have hlength' := h'.joined_length fun s hs => hC.length s (List.mem_append_right _ hs)
  -- whatever the tree joins is a digest on the left, so the string that is hashed splits in one
  -- place only
  have hall : ∀ p ∈ PairTree.joined (merkleNode C) txs.length (txs.map (merkleLeaf C)) ++
      PairTree.joined (merkleNode C) txs'.length (txs'.map (merkleLeaf C)),
      p.1.toList.length = 64 ∧ p.1 ++ p.2 ∈ merkleHashed C txs ++ merkleHashed C txs' := by
    intro p hp
    rcases List.mem_append.mp hp with hp | hp
    · exact ⟨(hlength p hp).1, List.mem_append_left _ (List.mem_map_of_mem hp)⟩
    · exact ⟨(hlength' p hp).1, List.mem_append_right _ (List.mem_map_of_mem hp)⟩
  intro p hp q hq hnode
  have hstring := hC.injective _ (hall p hp).2 _ (hall q hq).2 hnode
  exact append_pair_inj ((hall p hp).1.trans (hall q hq).1.symm) hstring

/-- The root is what the loop leaves. -/
theorem reduce_eq_computeMerkleRoot (C : Crypto) {txs : List Transaction} (hne : txs ≠ []) :
    PairTree.reduce (merkleNode C) txs.length (txs.map (merkleLeaf C)) =
      [computeMerkleRoot C txs] := by
  have hleaves : txs.map (merkleLeaf C) ≠ [] := by simpa using hne
  obtain ⟨root, hroot⟩ :
      ∃ root, PairTree.reduce (merkleNode C) txs.length (txs.map (merkleLeaf C)) = [root] :=
    PairTree.exists_reduce _ hleaves (by simp)
  rw [computeMerkleRoot, hroot]

/-- Lists of one length with the same root have the same identifiers, in the
same order. -/
theorem txIDs_eq_of_root {C : Crypto} {txs txs' : List Transaction} (h : DigestIDs txs)
    (h' : DigestIDs txs') (hC : C.TellsApart (merkleHashed C txs ++ merkleHashed C txs'))
    (hroot : computeMerkleRoot C txs = computeMerkleRoot C txs')
    (hlen : txs.length = txs'.length) :
    txs.map Transaction.txID = txs'.map Transaction.txID := by
  have hreduce : PairTree.reduce (merkleNode C) txs.length (txs.map (merkleLeaf C)) =
      PairTree.reduce (merkleNode C) txs.length (txs'.map (merkleLeaf C)) := by
    rw [reduce_eq_computeMerkleRoot C h.ne_nil, hroot, hlen,
      reduce_eq_computeMerkleRoot C h'.ne_nil]
  have hapart := merkleNode_tellsApart h h' hC
  rw [← hlen] at hapart
  rw [← h.leaves C, ← h'.leaves C]
  exact PairTree.reduce_inj txs.length hapart (by simpa using hlen) hreduce

/-- **A repeated transaction.** Behind an even number of transactions the last
one may stand twice under the same root. -/
theorem repeated_last_same_root (C : Crypto) {txs : List Transaction} (hne : txs ≠ [])
    (heven : txs.length % 2 = 0) (tx : Transaction) :
    computeMerkleRoot C (txs ++ [tx, tx]) = computeMerkleRoot C (txs ++ [tx]) := by
  have hne' : txs.map (merkleLeaf C) ≠ [] := by simpa using hne
  have hreduce : PairTree.reduce (merkleNode C) (txs ++ [tx, tx]).length
        ((txs ++ [tx, tx]).map (merkleLeaf C)) =
      PairTree.reduce (merkleNode C) (txs ++ [tx]).length ((txs ++ [tx]).map (merkleLeaf C)) := by
    simpa using
      @PairTree.reduce_repeat_last _ (merkleNode C) _ hne' (by simpa using heven) (merkleLeaf C tx)
  rw [computeMerkleRoot, hreduce, ← computeMerkleRoot]

/-- **Levels look alike.** Transactions whose identifiers are the hashes on the
first level of a tree have the root of that tree. -/
theorem level_same_root (C : Crypto) {txs txs' : List Transaction} (hlong : 1 < txs.length)
    (hids : txs'.map (merkleLeaf C) = PairTree.level (merkleNode C) (txs.map (merkleLeaf C))) :
    computeMerkleRoot C txs' = computeMerkleRoot C txs := by
  have hlength : txs'.length = (txs.length + 1) / 2 := by
    simpa [PairTree.level_length] using congrArg List.length hids
  have hreduce : PairTree.reduce (merkleNode C) txs'.length (txs'.map (merkleLeaf C)) =
      PairTree.reduce (merkleNode C) txs.length (txs.map (merkleLeaf C)) := by
    have hleaves : (txs.map (merkleLeaf C)).length = txs.length := List.length_map _
    rw [hids, ← hleaves]
    refine PairTree.reduce_level (by omega) ?_ (by omega)
    rw [PairTree.level_length, hleaves, hlength]
    exact Nat.le_succ _
  rw [computeMerkleRoot, hreduce, ← computeMerkleRoot]

/-- **What a Merkle root commits to.** Transactions with the same root have the
same identifiers exactly when there are equally many of them. A block that keeps
a root and names more or fewer transactions is not told apart by it. -/
theorem merkle_root_commits_iff {C : Crypto} {txs txs' : List Transaction} (h : DigestIDs txs)
    (h' : DigestIDs txs') (hC : C.TellsApart (merkleHashed C txs ++ merkleHashed C txs'))
    (hroot : computeMerkleRoot C txs = computeMerkleRoot C txs') :
    txs.map Transaction.txID = txs'.map Transaction.txID ↔ txs.length = txs'.length :=
  ⟨fun hids => by simpa using congrArg List.length hids, txIDs_eq_of_root h h' hC hroot⟩

/-! ## A payment named twice -/

section Sample

/-- Two rewards and a transfer, and the same with the transfer repeated. -/
def onceNamed : List Transaction := [sampleReward2, sampleReward1, sampleTransfer]
def twiceNamed : List Transaction := onceNamed ++ [sampleTransfer]

/-- The digests that the two roots are computed from. -/
def namedDigests : List (String × String) :=
  [(sampleReward2.txID ++ sampleReward1.txID,
      "dae5a4ac5bf858ede28def5c0f03c8362d627b0cdca0a5e348c234d9ef3c5df0"),
    (sampleTransfer.txID ++ sampleTransfer.txID,
      "a2ffe75dc51c2bdc5aa8fb227a8ba8675bf039a6e22424cdf830b4ea142b8f0d"),
    ("dae5a4ac5bf858ede28def5c0f03c8362d627b0cdca0a5e348c234d9ef3c5df0" ++
        "a2ffe75dc51c2bdc5aa8fb227a8ba8675bf039a6e22424cdf830b4ea142b8f0d",
      "d3ce8986b32f65cdd767c00cfff137e72ca0f3bfadb082270f1007dc11cd43b2")]

theorem namedDigests_ok : Crypto.TableOk namedDigests where
  distinct := by decide +kernel
  nonempty := by decide +kernel
  digest := by decide +kernel

theorem onceNamed_ids : DigestIDs onceNamed := ⟨by decide, by decide +kernel⟩

theorem twiceNamed_ids : DigestIDs twiceNamed := ⟨by decide, by decide +kernel⟩

/-- The strings hashed for the two roots are told apart. -/
theorem named_tellsApart : (Crypto.ofTable namedDigests []).TellsApart
    (merkleHashed (.ofTable namedDigests []) onceNamed ++
      merkleHashed (.ofTable namedDigests []) twiceNamed) where
  length := by decide +kernel
  injective s _ t _ h := namedDigests_ok.injective h

end Sample

/-- The block that makes the payment twice has the root of the honest one,
although no two strings have one digest. -/
theorem merkle_root_counterexample :
    ¬ ∀ (C : Crypto) (txs txs' : List Transaction), Function.Injective C.sha256 →
      DigestIDs txs → DigestIDs txs' → txs.length ≠ 1 → txs'.length ≠ 1 →
      computeMerkleRoot C txs = computeMerkleRoot C txs' →
      txs.map Transaction.txID = txs'.map Transaction.txID := by
  intro h
  have hids := h (.ofTable namedDigests []) onceNamed twiceNamed namedDigests_ok.injective
    onceNamed_ids twiceNamed_ids (by decide) (by decide) (by decide +kernel)
  exact absurd (congrArg List.length hids) (by decide)

/-- The theorem at these two lists. -/
theorem merkle_root_commits_named :
    onceNamed.map Transaction.txID = twiceNamed.map Transaction.txID ↔
      onceNamed.length = twiceNamed.length :=
  merkle_root_commits_iff onceNamed_ids twiceNamed_ids named_tellsApart (by decide +kernel)

end PersonalBlockchain
