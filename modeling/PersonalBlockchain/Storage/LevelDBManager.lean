import PersonalBlockchain.Lib.FileSwap
import PersonalBlockchain.Model.Block

/-!
# Personal blockchain — chain storage

`class LevelDBManager` keeps the chain in `chain.json`, a JSON array of blocks.
`atomicWrite` replaces the file through `chain.json.tmp` and `chain.json.bak`,
`recoverTempFiles` repairs the three names at start-up. Text is modelled up to
parsing: a file holds the dump of a value, which parses as that value, or the
beginning of a dump, which parses as nothing. Errors of the file system are
left out: a write succeeds, a rename fails only without its source.

* `atomicWrite_run` — a completed write leaves the new text and nothing else;
* `atomicWrite_crash` — after a crash at any point, and any number of crashes
  during the recovery, the file is the old one, the new one, or the torn
  beginning of the first one ever written.
-/

namespace PersonalBlockchain

open FileSwap

/-- What a file holds. -/
inductive FileText
  /-- `j.dump(2)` -/
  | dump (j : Json)
  /-- the first `size` characters of a dump, not all of them -/
  | fragment (size : Nat)

/-- The files `chain.json`, `chain.json.tmp` and `chain.json.bak`. -/
abbrev DataDir := Directory FileText

/-- `sz > 2` of `hasPersistedChain`. -/
def FileText.longerThan2 : FileText → Bool
  | .fragment size => 2 < size
  | .dump (.numberUnsigned n) => 100 ≤ n
  | .dump (.numberInteger n) => n < -9 || 100 ≤ n
  | .dump (.string s) => s ≠ ""
  | .dump (.array items) => items ≠ []
  | .dump (.object members) => members ≠ []
  | .dump .null | .dump (.boolean _) | .dump (.numberFloat _) => true

namespace LevelDBManager

/-! ## Writing and recovering -/

/-- The end of `atomicWrite`: move the temporary file into place. -/
def installTmp : Program FileText :=
  .rename .tmp .file fun
    | true => .remove .bak (.done true)
    | false => .isThere .bak fun
      | true => .rename .bak .file fun _ => .done false
      | false => .done false

/-- `atomicWrite`. -/
def atomicWrite (text : FileText) : Program FileText :=
  .write .tmp text <| .isThere .file fun
    | true => .remove .bak <| .rename .file .bak fun
      | true => installTmp
      | false => .done false
    | false => installTmp

/-- `recoverTempFiles`, for `chain.json`. -/
def recoverTempFiles : Program FileText :=
  .isThere .tmp fun
    | false => .done true
    | true => .isThere .file fun
      -- the rename may not have happened yet: the old file stays
      | true => .remove .tmp (.done true)
      | false => .rename .tmp .file fun _ => .done true

/-- A write that completes leaves the new text and no other file. -/
theorem atomicWrite_run (text : FileText) (dir : DataDir) :
    run (atomicWrite text) dir = (true, { file := some text }) := by
  obtain ⟨file, tmp, bak⟩ := dir
  cases file <;> rfl

/-- The directory the constructor leaves. -/
def recovered : DataDir → DataDir
  | ⟨some old, some _, bak⟩ => ⟨some old, none, bak⟩
  | ⟨none, some text, bak⟩ => ⟨some text, none, bak⟩
  | ⟨file, none, bak⟩ => ⟨file, none, bak⟩

theorem recoverTempFiles_run (dir : DataDir) : (run recoverTempFiles dir).2 = recovered dir := by
  obtain ⟨file, tmp, bak⟩ := dir
  cases tmp <;> cases file <;> rfl

/-- Without a temporary file there is nothing to recover. -/
theorem recovered_of_noTmp {dir : DataDir} (h : dir.tmp = none) : recovered dir = dir := by
  obtain ⟨file, tmp, bak⟩ := dir
  obtain rfl : tmp = none := h
  cases file <;> rfl

/-- An interrupted recovery did nothing, or everything. -/
theorem recoverTempFiles_interrupt (k : Nat) (dir : DataDir) :
    interrupt none k recoverTempFiles dir = dir ∨
      interrupt none k recoverTempFiles dir = recovered dir := by
  obtain ⟨file, tmp, bak⟩ := dir
  -- only the third operation changes anything
  rcases k with _ | _ | _ | k
  · exact Or.inl rfl
  · cases tmp <;> exact Or.inl rfl
  · cases tmp <;> cases file <;> exact Or.inl rfl
  · cases tmp <;> cases file <;>
      simp [recoverTempFiles, interrupt, Directory.get, Directory.set, recovered]

theorem recovered_idem (dir : DataDir) : recovered (recovered dir) = recovered dir := by
  obtain ⟨file, tmp, bak⟩ := dir
  cases tmp <;> cases file <;> rfl

/-- **Crashes during the recovery do no harm**: however often it is interrupted,
the last one leaves what one recovery would have left. -/
theorem restart_eq_recovered (ks : List Nat) (dir : DataDir) :
    restart recoverTempFiles ks dir = recovered dir := by
  rw [restart_eq ?_, recoverTempFiles_run]
  intro k dir
  rw [recoverTempFiles_run, recoverTempFiles_run]
  rcases recoverTempFiles_interrupt k dir with h | h
  · rw [h]
  · rw [h, recovered_idem]

/-- **A crash leaves the old text or the new one.** Only where there was no
file yet can a torn beginning of the new text take its place. -/
theorem atomicWrite_crash (text : FileText) (fragment : Option FileText) (k : Nat)
    {dir : DataDir} (htmp : dir.tmp = none) :
    let dir' := recovered (interrupt fragment k (atomicWrite text) dir)
    dir'.tmp = none ∧
      (dir'.file = dir.file ∨ dir'.file = some text ∨
        dir.file = none ∧ fragment.isSome = true ∧ dir'.file = fragment) := by
  obtain ⟨file, tmp, bak⟩ := dir
  obtain rfl : tmp = none := htmp
  rcases k with _ | _ | _ | _ | _ | _ | k
  · -- in the middle of the write
    cases fragment <;> cases file <;> simp [atomicWrite, interrupt, Directory.set, recovered]
  all_goals cases file <;>
    simp [atomicWrite, installTmp, interrupt, Directory.set, Directory.get, recovered]

/-! ## The chain in the file -/

/-- `readFile`, where `none` is the empty string. -/
def readFile (dir : DataDir) : Option FileText :=
  match dir.file with
  | some (.fragment 0) => none
  | raw => raw

/-- `hasPersistedChain`. -/
def hasPersistedChain (dir : DataDir) : Bool :=
  dir.file.any FileText.longerThan2

/-- `loadChain`. -/
def loadChain (C : Crypto) (dir : DataDir) : List Block :=
  match readFile dir with
  | some (.dump (.array items)) =>
    match items.mapM (Block.fromJson C) with
    | .ok chain => chain
    | .error _ => []
  -- no file, not an array, malformed
  | _ => []

/-- The text `saveChain` writes. -/
def chainText (chain : List Block) : FileText :=
  .dump (.array (chain.map Block.toJson))

/-- `saveChain`. -/
def saveChain (chain : List Block) : Program FileText :=
  atomicWrite (chainText chain)

/-- `appendBlock` once `readFile` has returned `raw`: what it does with the files. The
exception of decoding the last block is not caught. -/
def appendTo (C : Crypto) (block : Block) (raw : Option FileText) :
    Except JsonError (Program FileText) :=
  match raw with
  | none => .ok (atomicWrite (.dump (.array [block.toJson])))
  | some (.dump (.array items)) => do
    if let some last := items.getLast? then
      let tip ← Block.fromJson C last
      if block.index ≠ tip.index + 1 ∨ block.previousHash ≠ tip.hash then
        return .done false
    return atomicWrite (.dump (.array (items ++ [block.toJson])))
  | some _ => .ok (.done false)

/-- `appendBlock`. -/
def appendBlock (C : Crypto) (block : Block) (dir : DataDir) :
    Except JsonError (Program FileText) :=
  appendTo C block (readFile dir)

/-! ## Directories with a chain -/

/-- The file holds a chain this program wrote. -/
def Holds (chain : List Block) (dir : DataDir) : Prop :=
  dir.file = some (chainText chain)

/-- What was stored comes back as the decoder reads it. -/
theorem loadChain_of_holds (C : Crypto) {chain : List Block} {dir : DataDir}
    (h : Holds chain dir) : loadChain C dir = chain.map (Block.reread C) := by
  rw [loadChain, readFile, h]
  simp only [chainText, mapM_encoded (Block.fromJson_toJson C)]

theorem hasPersistedChain_of_holds {chain : List Block} {dir : DataDir} (hne : chain ≠ [])
    (h : Holds chain dir) : hasPersistedChain dir = true := by
  rw [hasPersistedChain, h]
  simp [chainText, FileText.longerThan2, hne]

theorem chainText_append (chain : List Block) (block : Block) :
    chainText (chain ++ [block]) =
      .dump (.array (chain.map Block.toJson ++ [block.toJson])) := by
  rw [chainText, List.map_append, List.map_singleton]

/-- `appendBlock` on a stored chain: the block extends the last one and the
longer chain is written, or nothing is. -/
theorem appendBlock_of_holds (C : Crypto) (block : Block) {chain : List Block} {dir : DataDir}
    (h : Holds chain dir) :
    appendBlock C block dir =
      if ∀ tip ∈ chain.getLast?, block.index = tip.index + 1 ∧ block.previousHash = tip.hash then
        .ok (saveChain (chain ++ [block]))
      else .ok (.done false) := by
  rw [appendBlock, appendTo.eq_def, readFile, h, saveChain, chainText_append]
  simp only [chainText, List.getLast?_map]
  cases chain.getLast? with
  | none =>
    -- an empty array has no last block to compare with
    rw [if_pos (by simp)]
    rfl
  | some tip =>
    -- decoding keeps the index and the hash of the last block
    simp only [Option.map_some, Block.fromJson_toJson, Block.reread, Option.mem_def,
      Option.some.injEq, forall_eq', bind, Except.bind, ne_eq, ← not_and_or, ite_not]
    split_ifs <;> rfl

end LevelDBManager

end PersonalBlockchain
