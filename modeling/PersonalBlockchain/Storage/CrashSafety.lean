import PersonalBlockchain.Lib.Machine
import PersonalBlockchain.Storage.LevelDBManager

/-!
# Personal blockchain — crash safety of the chain file

A storage is called any number of times; each call completes, or the process
dies at one of its file operations, or in the middle of writing, and the
constructor of the next process repairs the directory, possibly after dying a
few times itself. Between calls there is never a temporary file, and the file
is missing, torn (only while no write ever completed) or a chain in full. So a
crash costs at most the call it interrupted.

What comes back is the chain as the decoder reads it: entries in the format of
older versions, without addresses, are filled in (`Block.reread`).

## Results

* `storageStep_spec` — what the next start-up finds after one call, completed or not;
* `loaded_since` — no write that completed is lost;
* `crash_safe` — both in every run.
-/

namespace PersonalBlockchain

open FileSwap Machine LevelDBManager

/-- A call that writes the chain file. -/
inductive StorageOp
  | saveChain (chain : List Block)
  | appendBlock (block : Block)

/-- What happens to the storage. -/
inductive StorageCall
  | completed (op : StorageOp)
  /-- the process dies at file operation `k` of the call, leaving a torn text
  of the given size if it was writing, then dies during each of the
  `recoveries`, and then starts up -/
  | crashed (op : StorageOp) (k : Nat) (fragment : Option Nat) (recoveries : List Nat)
  /-- a start-up after a process that ended between calls -/
  | restarted (recoveries : List Nat)

/-- What a call answers; a start-up answers nothing. -/
inductive StorageReply
  | returned (ok : Bool)
  | threw (e : JsonError)
  | restarted
  deriving DecidableEq

namespace StorageOp

/-- The file operations of a call. -/
def program (C : Crypto) (dir : DataDir) : StorageOp → Except JsonError (Program FileText)
  | saveChain chain => .ok (LevelDBManager.saveChain chain)
  | appendBlock block => LevelDBManager.appendBlock C block dir

/-- The complete chain a call writes, if it writes. -/
def chain (C : Crypto) (dir : DataDir) : StorageOp → List Block
  | saveChain chain => chain
  | appendBlock block => loadChain C dir ++ [block]

end StorageOp

/-- The call to the storage, completed or not. -/
def StorageCall.op : StorageCall → Option StorageOp
  | completed op => some op
  | crashed op _ _ _ => some op
  | restarted _ => none

/-- One call, and the start-up after it if it did not complete. -/
def storageStep (C : Crypto) (call : StorageCall) (dir : DataDir) :
    Option (StorageReply × DataDir) :=
  match call with
  | .completed op =>
    match op.program C dir with
    | .ok program => some (.returned (run program dir).1, (run program dir).2)
    | .error e => some (.threw e, dir)
  | .crashed op k fragment recoveries =>
    match op.program C dir with
    | .ok program => some (.restarted, restart recoverTempFiles recoveries
        (interrupt (fragment.map .fragment) k program dir))
    | .error _ => some (.restarted, restart recoverTempFiles recoveries dir)
  | .restarted recoveries => some (.restarted, restart recoverTempFiles recoveries dir)

/-- A call in a run. -/
abbrev StorageEntry := Entry DataDir StorageCall StorageReply

/-- The complete chain the call of an entry was writing, as the decoder reads
it back. -/
def StorageEntry.writes (C : Crypto) (e : StorageEntry) : Option (List Block) :=
  e.call.op.map fun op => (op.chain C e.pre).map (Block.reread C)

/-- What a call, completed or not, leaves to be loaded. -/
structure SafeEntry (C : Crypto) (e : StorageEntry) : Prop where
  /-- the chain there was before, or the one the call was writing -/
  kept : loadChain C e.post = loadChain C e.pre ∨
    StorageEntry.writes C e = some (loadChain C e.post)
  /-- a completed write is there -/
  written : e.ret = .returned true → StorageEntry.writes C e = some (loadChain C e.post)

/-! ## Between calls -/

/-- What the directory holds between calls. -/
structure Settled (dir : DataDir) : Prop where
  noTmp : dir.tmp = none
  file : dir.file = none ∨ (∃ size, dir.file = some (.fragment size)) ∨ ∃ chain, Holds chain dir

theorem loadChain_of_none (C : Crypto) {dir : DataDir} (h : dir.file = none) :
    loadChain C dir = [] := by
  simp [loadChain, readFile, h]

theorem loadChain_of_fragment (C : Crypto) {dir : DataDir} {size : Nat}
    (h : dir.file = some (.fragment size)) : loadChain C dir = [] := by
  rw [loadChain, readFile, h]
  cases size <;> rfl

theorem loadChain_congr (C : Crypto) {dir dir' : DataDir} (h : dir.file = dir'.file) :
    loadChain C dir = loadChain C dir' := by
  rw [loadChain, loadChain, readFile, readFile, h]

theorem Settled.congr {dir dir' : DataDir} (h : Settled dir) (htmp : dir'.tmp = none)
    (hfile : dir'.file = dir.file) : Settled dir' := by
  refine ⟨htmp, ?_⟩
  unfold Holds
  rw [hfile]
  exact h.file

theorem reread_append_reread (C : Crypto) (chain : List Block) (block : Block) :
    (chain.map (Block.reread C) ++ [block]).map (Block.reread C) =
      (chain ++ [block]).map (Block.reread C) := by
  -- reading back fills in all there is to fill in
  have hagain : ∀ b : Block, (b.reread C).reread C = b.reread C := by
    intro b
    refine Block.reread_of_filled C fun tx htx => ?_
    obtain ⟨tx, -, rfl⟩ := List.mem_map.mp htx
    exact Transaction.filled_reread C tx
  simp only [List.map_append, List.map_map, Function.comp_def, hagain]

/-- `appendBlock` writes the chain it read and the block, or nothing. -/
theorem appendBlock_cases (C : Crypto) (block : Block) {dir : DataDir} (h : Settled dir) :
    appendBlock C block dir = .ok (.done false) ∨
      ∃ chain, appendBlock C block dir = .ok (saveChain chain) ∧
        chain.map (Block.reread C) = (loadChain C dir ++ [block]).map (Block.reread C) := by
  rcases h.file with hnone | ⟨size, hfragment⟩ | ⟨chain, hchain⟩
  · -- the first block
    refine Or.inr ⟨[block], ?_, by rw [loadChain_of_none C hnone, List.nil_append]⟩
    rw [appendBlock, appendTo.eq_def, readFile, hnone]
    rfl
  · cases size with
    | zero =>
      -- an empty file counts as none
      refine Or.inr ⟨[block], ?_, by rw [loadChain_of_fragment C hfragment, List.nil_append]⟩
      rw [appendBlock, appendTo.eq_def, readFile, hfragment]
      rfl
    | succ size =>
      -- a torn file of some length is a parse error, and nothing is written
      left
      rw [appendBlock, appendTo.eq_def, readFile, hfragment]
      rfl
  · rw [appendBlock_of_holds C block hchain]
    split_ifs with hextends
    · refine Or.inr ⟨chain ++ [block], rfl, ?_⟩
      rw [loadChain_of_holds C hchain, reread_append_reread]
    · exact Or.inl rfl

/-- Between calls a call writes its complete chain or nothing. -/
theorem StorageOp.program_cases (C : Crypto) (op : StorageOp) {dir : DataDir}
    (h : Settled dir) :
    op.program C dir = .ok (.done false) ∨
      ∃ chain, op.program C dir = .ok (LevelDBManager.saveChain chain) ∧
        chain.map (Block.reread C) = (op.chain C dir).map (Block.reread C) := by
  cases op with
  | saveChain chain => exact Or.inr ⟨chain, rfl, rfl⟩
  | appendBlock block => exact appendBlock_cases C block h

/-! ## One call -/

/-- A completed write leaves the chain in full. -/
theorem settled_saveChain (chain : List Block) (dir : DataDir) :
    Settled (run (saveChain chain) dir).2 ∧ Holds chain (run (saveChain chain) dir).2 := by
  rw [saveChain, atomicWrite_run]
  exact ⟨⟨rfl, Or.inr (Or.inr ⟨chain, rfl⟩)⟩, rfl⟩

/-- A crash while a chain is written leaves that chain or what there was to
load before. -/
theorem settled_crash (C : Crypto) (chain : List Block) (fragment : Option Nat) (k : Nat)
    {dir : DataDir} (h : Settled dir) :
    let dir' := recovered (interrupt (fragment.map .fragment) k (saveChain chain) dir)
    Settled dir' ∧ (loadChain C dir' = loadChain C dir ∨ Holds chain dir') := by
  intro dir'
  obtain ⟨htmp, hold | hnew | ⟨hnone, hsome, htorn⟩⟩ :=
    atomicWrite_crash (chainText chain) (fragment.map .fragment) k h.noTmp
  · -- before the rename
    exact ⟨h.congr htmp hold, Or.inl (loadChain_congr C hold)⟩
  · -- after it, or recovered from a complete temporary file
    exact ⟨⟨htmp, Or.inr (Or.inr ⟨chain, hnew⟩)⟩, Or.inr hnew⟩
  · -- the torn text of the first write loads as nothing, like no file
    obtain ⟨size, rfl⟩ : ∃ size, fragment = some size := by
      rw [Option.isSome_map] at hsome
      exact Option.isSome_iff_exists.mp hsome
    have hnothing := (loadChain_of_fragment C htorn).trans (loadChain_of_none C hnone).symm
    exact ⟨⟨htmp, Or.inr (Or.inl ⟨size, htorn⟩)⟩, Or.inl hnothing⟩

/-- The chain in the file is the one the call was writing. -/
theorem writes_of_holds {C : Crypto} {e : StorageEntry} {op : StorageOp} {chain : List Block}
    (hop : e.call.op = some op)
    (hchain : chain.map (Block.reread C) = (op.chain C e.pre).map (Block.reread C))
    (hholds : Holds chain e.post) : StorageEntry.writes C e = some (loadChain C e.post) := by
  rw [StorageEntry.writes, hop, loadChain_of_holds C hholds, hchain]
  rfl

/-- **One call**, completed or not: what the next start-up finds. -/
theorem storageStep_spec {C : Crypto} {call : StorageCall} {dir dir' : DataDir}
    {r : StorageReply} (h : Settled dir) (hs : storageStep C call dir = some (r, dir')) :
    Settled dir' ∧ SafeEntry C ⟨dir, call, r, dir'⟩ := by
  cases call with
  | completed op =>
    -- an operation writes one chain, or nothing
    rcases op.program_cases C h with hnothing | ⟨chain, hwrite, hchain⟩
    · simp only [storageStep, hnothing] at hs
      cases hs
      exact ⟨h, Or.inl rfl, fun hret => by cases hret⟩
    · simp only [storageStep, hwrite] at hs
      cases hs
      obtain ⟨hsettled, hholds⟩ := settled_saveChain chain dir
      exact ⟨hsettled, Or.inr (writes_of_holds rfl hchain hholds),
        fun _ => writes_of_holds rfl hchain hholds⟩
  | crashed op k fragment recoveries =>
    rcases op.program_cases C h with hnothing | ⟨chain, hwrite, hchain⟩
    · -- nothing was being written
      simp only [storageStep, hnothing, interrupt, restart_eq_recovered,
        recovered_of_noTmp h.noTmp] at hs
      cases hs
      exact ⟨h, Or.inl rfl, fun hret => by cases hret⟩
    · simp only [storageStep, hwrite, restart_eq_recovered] at hs
      cases hs
      obtain ⟨hsettled, hload⟩ := settled_crash C chain fragment k h
      exact ⟨hsettled, hload.imp_right (writes_of_holds rfl hchain), fun hret => by cases hret⟩
  | restarted recoveries =>
    simp only [storageStep, restart_eq_recovered, recovered_of_noTmp h.noTmp] at hs
    cases hs
    exact ⟨h, Or.inl rfl, fun hret => by cases hret⟩

/-! ## Whole runs -/

/-- Between the calls of a run the directory is settled. -/
theorem settled_run {C : Crypto} {tr : List StorageEntry} {dir : DataDir}
    (hrun : Run (storageStep C) {} tr dir) : Settled dir :=
  hrun.invariant ⟨rfl, Or.inl rfl⟩ fun _ _ _ _ h hs => (storageStep_spec h hs).1

/-- **No write that completed is lost**: what there is to load was written by
that call or a later one. -/
theorem loaded_since {C : Crypto} {tr tr₁ tr₂ : List StorageEntry} {e : StorageEntry}
    {dir : DataDir} (hrun : Run (storageStep C) {} tr dir) (htr : tr = tr₁ ++ e :: tr₂)
    (hret : e.ret = .returned true) :
    ∃ e' ∈ e :: tr₂, StorageEntry.writes C e' = some (loadChain C dir) := by
  induction hrun generalizing tr₂ with
  | nil => simp at htr
  | @snoc tr dir dir' call r hrun hs ih =>
    have hsafe := (storageStep_spec (settled_run hrun) hs).2
    rcases tr₂.eq_nil_or_concat with rfl | ⟨tr₂, last, rfl⟩
    · -- the call itself is the last one
      obtain ⟨-, hlast⟩ := List.append_inj' htr rfl
      obtain rfl := (List.singleton_inj.mp hlast).symm
      exact ⟨_, List.mem_singleton_self _, hsafe.written hret⟩
    · rw [List.concat_eq_append, ← List.cons_append] at htr ⊢
      rw [← List.append_assoc] at htr
      obtain ⟨hbefore, hlast⟩ := List.append_inj' htr rfl
      obtain rfl := (List.singleton_inj.mp hlast).symm
      obtain ⟨e', he', hwrites⟩ := ih hbefore
      -- the last call kept what there was, or wrote its own chain
      rcases hsafe.kept with hkept | hnew
      · exact ⟨e', List.mem_append_left _ he', by rw [hwrites, hkept]⟩
      · exact ⟨_, List.mem_append_right _ (List.mem_singleton_self _), hnew⟩

/-- **Crash safety.** In every run of calls on a data directory, each completed
or cut short anywhere, the chain loaded after a call is the one loaded before
it or the complete one the call was writing, as the decoder reads it back; and
once a write has completed, what is loaded was written by it or later. -/
theorem crash_safe {C : Crypto} {tr : List StorageEntry} {dir : DataDir}
    (hrun : Run (storageStep C) {} tr dir) :
    (∀ e ∈ tr, SafeEntry C e) ∧
      ∀ tr₁ e tr₂, tr = tr₁ ++ e :: tr₂ → e.ret = .returned true →
        ∃ e' ∈ e :: tr₂, StorageEntry.writes C e' = some (loadChain C dir) := by
  refine ⟨fun e he => ?_, fun _ _ _ => loaded_since hrun⟩
  obtain ⟨hs, _, hpre⟩ := hrun.entry e he
  exact (storageStep_spec (settled_run hpre) hs).2

section Sample

/-- An entry in the format of older versions: keys, no addresses. -/
def legacyBlock : Block where
  transactions := [{ senderPublicKey := "COINBASE", receiverPublicKey := "04ab", amount := 50 }]

/-- The sample needs no digests. -/
def noCrypto : Crypto := .ofTable [] []

/-- The first chain is saved, and the process dies after the last rename. -/
def crashAfterRename : StorageCall := .crashed (.saveChain [legacyBlock]) 3 none []

theorem crashAfterRename_step : storageStep noCrypto crashAfterRename {} =
    some (.restarted, { file := some (chainText [legacyBlock]) }) := rfl

/-- A first chain is saved; the process dies while there is no `chain.json`,
twice again at start-up, and the longer chain is found. -/
theorem crash_safe_sample : ∃ tr dir, Run (storageStep noCrypto) {} tr dir ∧ tr.length = 2 ∧
    (∀ e ∈ tr, SafeEntry noCrypto e) ∧ (loadChain noCrypto dir).length = 2 := by
  obtain ⟨tr, dir, hrun, hcheck⟩ := Run.exists_of_exec (storageStep noCrypto)
    [.completed (.saveChain [{}]), .crashed (.appendBlock { index := 1 }) 4 none [0, 1]] {}
    (fun r => r.1.length = 2 && (loadChain noCrypto r.2).length = 2) (by decide +kernel)
  simp only [Bool.and_eq_true, decide_eq_true_eq] at hcheck
  exact ⟨tr, dir, hrun, hcheck.1, (crash_safe hrun).1, hcheck.2⟩

end Sample

/-- The chain a crashed call was writing comes back with an address its last
transaction was written without. -/
theorem crash_safe_counterexample :
    ¬ ∀ (C : Crypto) (tr : List StorageEntry) (dir : DataDir), Run (storageStep C) {} tr dir →
      ∀ e ∈ tr, ∀ op k fragment recoveries, e.call = .crashed op k fragment recoveries →
        loadChain C e.post = loadChain C e.pre ∨ loadChain C e.post = op.chain C e.pre := by
  intro h
  have hload := h noCrypto _ _ (Run.snoc Run.nil crashAfterRename_step) _
    (List.mem_singleton_self _) _ _ _ _ rfl
  revert hload
  decide +kernel

end PersonalBlockchain
