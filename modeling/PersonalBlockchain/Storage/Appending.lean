import PersonalBlockchain.Storage.LevelDBManager

/-!
# Personal blockchain — what `appendBlock` does to a stored chain

`appendBlock` is meant to refuse whenever the block cannot be put on top of
what the file holds. But `readFile` answers with the empty string for a file
that is missing, for one that is empty and for one that cannot be read, and an
empty string is taken for an empty chain. The continuity check looks at the
last stored entry only, and at nothing when there is none.

## Results

* `appendBlockWith_ends` — what a call does, by what was read;
* `append_keeps_persisted_iff` — no stored block is lost and the new one extends the
  stored chain, exactly when the entries that let the block pass are the ones
  that are stored, all of them decode, and a first block has index 0;
* `keepsPersisted_of_holds` — so it is when the file can be read and holds a chain
  that this program wrote;
* `append_keeps_persisted_counterexample` — a file that cannot be opened, and is
  replaced by one block.
-/

namespace PersonalBlockchain

open FileSwap

namespace LevelDBManager

/-! ## Reading that fails -/

/-- What comes of opening and reading `chain.json`. -/
inductive Reading
  | whole
  /-- only the first `size` characters arrive: none at all when the file cannot
  be opened or reading it throws -/
  | cut (size : Nat)
  /-- `fs::exists` throws, which `readFile` does not catch -/
  | threw

/-- What `readFile` makes of a text that is there. A beginning of the dump of
an array is not itself the dump of an array. -/
def Reading.of (reading : Reading) (text : FileText) : Option FileText :=
  match reading with
  | .cut 0 => none
  | .cut (size + 1) => some (.fragment (size + 1))
  | .whole | .threw => some text

/-- What was read, `none` when that is the empty string. -/
def rawText (reading : Reading) (dir : DataDir) : Option FileText :=
  (readFile dir).bind reading.of

/-- `appendBlock`, however reading goes: its answer, none when an exception
leaves it, and the directory after it. -/
def appendBlockWith (C : Crypto) (block : Block) (reading : Reading) (dir : DataDir) :
    Option Bool × DataDir :=
  match reading, appendTo C block (rawText reading dir) with
  | .threw, _ => (none, dir)
  | _, .ok program => ((run program dir).1, (run program dir).2)
  | _, .error _ => (none, dir)

/-! ## What a call does -/

/-- The entries of an array in the file; an empty string counts as an empty
array. -/
def entries : Option FileText → Option (List Json)
  | none | some (.fragment 0) => some []
  | some (.dump (.array items)) => some items
  | some _ => none

/-- The block passes the check against the last entry. -/
def Continues (C : Crypto) (block : Block) (items : List Json) : Prop :=
  ∀ last ∈ items.getLast?, ∃ tip, Block.fromJson C last = .ok tip ∧
    block.index = tip.index + 1 ∧ block.previousHash = tip.hash

/-- The directory after a completed write of an array. -/
def holding (items : List Json) : DataDir := { file := some (.dump (.array items)) }

/-- Where the block passes, the entries and the block are written. -/
theorem appendTo_of_entries {C : Crypto} {block : Block} {raw : Option FileText}
    {items : List Json} (hraw : raw = none ∧ items = [] ∨ raw = some (.dump (.array items)))
    (hcontinues : Continues C block items) :
    appendTo C block raw = .ok (atomicWrite (.dump (.array (items ++ [block.toJson])))) := by
  rcases hraw with ⟨rfl, rfl⟩ | rfl
  · rfl
  · rw [appendTo]
    cases hlast : items.getLast? with
    | none => rfl
    | some last =>
      obtain ⟨tip, hdecode, hindex, hprevious⟩ := hcontinues last hlast
      simp only [hdecode, hindex, hprevious, bind, Except.bind]
      simp [pure, Except.pure]

theorem appendTo_refused {C : Crypto} {block : Block} {items : List Json}
    (hcontinues : ¬ Continues C block items) :
    appendTo C block (some (.dump (.array items))) = .ok (.done false) ∨
      ∃ e, appendTo C block (some (.dump (.array items))) = .error e := by
  simp only [Continues, not_forall] at hcontinues
  obtain ⟨last, hlast, hno⟩ := hcontinues
  rw [Option.mem_def] at hlast
  rw [appendTo]
  -- the tip does not decode, or it does and the block is not the next one
  cases hdecode : Block.fromJson C last with
  | error e => exact .inr ⟨e, by simp only [hlast, hdecode, bind, Except.bind]⟩
  | ok tip =>
    refine .inl ?_
    have hbreaks : block.index ≠ tip.index + 1 ∨ block.previousHash ≠ tip.hash := by
      rw [← not_and_or]
      exact fun hlinks => hno ⟨tip, hdecode, hlinks⟩
    simp only [hlast, hdecode, bind, Except.bind, if_pos hbreaks]
    rfl

/-- The block passes the check against the entries that were read. -/
def Passes (C : Crypto) (block : Block) (reading : Reading) (dir : DataDir)
    (items : List Json) : Prop :=
  reading ≠ .threw ∧ entries (rawText reading dir) = some items ∧ Continues C block items

/-- The two ends of a call: it writes the entries it read and the block, or it
leaves the directory alone. -/
inductive Ends (C : Crypto) (block : Block) (reading : Reading) (dir : DataDir) :
    Option Bool × DataDir → Prop
  | written {items : List Json} : Passes C block reading dir items →
      Ends C block reading dir (some true, holding (items ++ [block.toJson]))
  | left {answer : Option Bool} : answer ≠ some true →
      (∀ items, ¬ Passes C block reading dir items) → Ends C block reading dir (answer, dir)

/-- Reading never gives an empty text: that is the empty string. -/
theorem rawText_ne_empty (reading : Reading) (dir : DataDir) :
    rawText reading dir ≠ some (.fragment 0) := by
  obtain ⟨file, tmp, bak⟩ := dir
  -- an empty file is read as no file
  have hwhole : readFile ⟨file, tmp, bak⟩ ≠ some (.fragment 0) := by
    rw [readFile]
    split
    · simp
    · rename_i hraw
      exact hraw
  rw [rawText]
  cases hread : readFile ⟨file, tmp, bak⟩ with
  | none => simp
  | some text =>
    rw [hread] at hwhole
    cases reading with
    | whole => exact hwhole
    | threw => exact hwhole
    | cut size => cases size <;> simp [Reading.of]

/-- An empty string, or an array. -/
theorem raw_of_entries {raw : Option FileText} {items : List Json}
    (hne : raw ≠ some (.fragment 0)) (h : entries raw = some items) :
    raw = none ∧ items = [] ∨ raw = some (.dump (.array items)) := by
  rw [entries.eq_def] at h
  split at h
  · exact .inl ⟨rfl, (Option.some.inj h).symm⟩
  · exact absurd rfl hne
  · rw [Option.some.inj h]
    exact .inr rfl
  · cases h

/-- A call whose reading does not throw runs its program. -/
theorem appendBlockWith_ok {C : Crypto} {block : Block} {reading : Reading} {dir : DataDir}
    {program : Program FileText} (hreading : reading ≠ .threw)
    (h : appendTo C block (rawText reading dir) = .ok program) :
    appendBlockWith C block reading dir = (some (run program dir).1, (run program dir).2) := by
  cases reading with
  | threw => exact absurd rfl hreading
  | _ => simp only [appendBlockWith, h]

theorem appendBlockWith_error {C : Crypto} {block : Block} {reading : Reading} {dir : DataDir}
    {e : JsonError} (h : appendTo C block (rawText reading dir) = .error e) :
    appendBlockWith C block reading dir = (none, dir) := by
  cases reading with
  | threw => rfl
  | _ => simp only [appendBlockWith, h]

/-- **Every call ends in one of the two ways**: it writes the entries that it
read and the block, which has to pass, or it leaves the directory as it was. -/
theorem appendBlockWith_ends (C : Crypto) (block : Block) (reading : Reading) (dir : DataDir) :
    Ends C block reading dir (appendBlockWith C block reading dir) := by
  by_cases hpass : ∃ items, Passes C block reading dir items
  · obtain ⟨items, hp⟩ := hpass
    have hraw := raw_of_entries (rawText_ne_empty reading dir) hp.2.1
    rw [appendBlockWith_ok hp.1 (appendTo_of_entries hraw hp.2.2), atomicWrite_run]
    exact .written hp
  · have hnone : ∀ items, ¬ Passes C block reading dir items := not_exists.mp hpass
    by_cases hreading : reading = .threw
    · subst hreading
      exact .left (by simp) hnone
    · cases hraw : rawText reading dir with
      | none =>
        -- an empty string lets every block pass
        exact absurd ⟨hreading, by rw [hraw, entries], by simp [Continues]⟩ (hnone [])
      | some text =>
        -- nothing but a whole array gets to the check, and there it fails
        have hrefused : appendTo C block (some text) = .ok (.done false) ∨
            ∃ e, appendTo C block (some text) = .error e := by
          rw [appendTo.eq_def]
          split
          · contradiction
          · rename_i items hsame
            cases hsame
            refine appendTo_refused fun hcontinues => ?_
            exact hnone items ⟨hreading, by rw [hraw, entries], hcontinues⟩
          · exact .inl rfl
        rw [← hraw] at hrefused
        rcases hrefused with h | ⟨e, h⟩
        · rw [appendBlockWith_ok hreading h]
          exact .left (by simp [run]) hnone
        · rw [appendBlockWith_error h]
          exact .left (by simp) hnone

/-! ## The promise -/

/-- The chain a file holds: no block when there is nothing in it, and none at
all when what is in it is not a chain. -/
def persisted (C : Crypto) (content : Option FileText) : Option (List Block) :=
  (entries content).bind fun items => (items.mapM (Block.fromJson C)).toOption

/-- The block goes on top of the chain: it links to the last block, or it is the
first one and has index 0. -/
def Extends (chain : List Block) (block : Block) : Prop :=
  match chain.getLast? with
  | none => block.index = 0
  | some tip => block.index = tip.index + 1 ∧ block.previousHash = tip.hash

/-- What is promised of a call: after a success the file decodes to the stored
chain and the block, otherwise to what it decoded to. -/
structure KeepsPersisted (C : Crypto) (block : Block) (reading : Reading) (dir : DataDir) :
    Prop where
  appended : (appendBlockWith C block reading dir).1 = some true →
    ∃ chain, persisted C dir.file = some chain ∧ Extends chain block ∧
      persisted C (appendBlockWith C block reading dir).2.file = some (chain ++ [block])
  refused : (appendBlockWith C block reading dir).1 ≠ some true →
    persisted C (appendBlockWith C block reading dir).2.file = persisted C dir.file

/-- What has to be so of the entries that let the block pass: they are the
stored ones, they decode, a first block has index 0, and the decoder has
nothing to fill in. -/
structure Appendable (C : Crypto) (block : Block) (dir : DataDir) (items : List Json) : Prop where
  stored : entries dir.file = some items
  decoded : ∃ chain, items.mapM (Block.fromJson C) = .ok chain
  first : items = [] → block.index = 0
  filled : block.Filled

theorem persisted_eq {C : Crypto} {content : Option FileText} {items : List Json}
    (h : entries content = some items) :
    persisted C content = (items.mapM (Block.fromJson C)).toOption := by
  rw [persisted, h, Option.bind_some]

/-- What the file decodes to after the block was put behind `items`. -/
theorem persisted_holding {C : Crypto} {items : List Json} {block : Block} {chain : List Block} :
    persisted C (holding (items ++ [block.toJson])).file = some chain ↔
      ∃ front, items.mapM (Block.fromJson C) = .ok front ∧ chain = front ++ [block.reread C] := by
  rw [holding, persisted_eq rfl, toOption_eq_some, mapM_concat_ok]
  simp only [Block.fromJson_toJson, Except.ok.injEq, exists_eq_left', exists_and_left]

/-- The check against the last entry is the check against the last block. -/
theorem extends_iff {C : Crypto} {block : Block} {items : List Json} {chain : List Block}
    (h : items.mapM (Block.fromJson C) = .ok chain) :
    Extends chain block ↔ Continues C block items ∧ (items = [] → block.index = 0) := by
  rcases List.eq_nil_or_concat items with rfl | ⟨front, last, rfl⟩
  · cases h
    simp [Extends, Continues]
  · rw [List.concat_eq_append] at h ⊢
    obtain ⟨blocks, tip, -, htip, rfl⟩ := mapM_concat_ok.mp h
    simp [Extends, Continues, htip]

/-- The entries that were read are the stored ones, or an empty string was read. -/
theorem entries_of_rawText {reading : Reading} {dir : DataDir} {items : List Json}
    (h : entries (rawText reading dir) = some items) :
    entries dir.file = some items ∨ items = [] := by
  have hread : entries (readFile dir) = entries dir.file := by
    rw [readFile]
    split
    · rename_i hempty
      rw [hempty]
      rfl
    · rfl
  rw [← hread]
  rw [rawText] at h
  cases htext : readFile dir with
  | none =>
    rw [htext] at h
    exact .inl h
  | some text =>
    rw [htext, Option.bind_some] at h
    -- a part of the text is no array, unless it is empty
    cases reading with
    | whole => exact .inl h
    | threw => exact .inl h
    | cut size =>
      cases size with
      | zero => exact .inr (Option.some.inj h).symm
      | succ size => cases h

/-- A file that decodes to no block has no entries. -/
theorem entries_of_persisted_nil {C : Crypto} {content : Option FileText}
    (h : persisted C content = some []) : entries content = some [] := by
  obtain ⟨items, hitems, hdecode⟩ := Option.bind_eq_some_iff.mp h
  rw [toOption_eq_some] at hdecode
  rcases List.eq_nil_or_concat items with rfl | ⟨front, last, rfl⟩
  · exact hitems
  · rw [List.concat_eq_append, mapM_concat_ok] at hdecode
    obtain ⟨blocks, tip, -, -, hnil⟩ := hdecode
    simp at hnil

/-- What a call that keeps its promise tells of the entries that let its block
pass. -/
theorem appendable_of_keepsPersisted {C : Crypto} {block : Block} {reading : Reading}
    {dir : DataDir} {items : List Json} (hkeeps : KeepsPersisted C block reading dir)
    (hp : Passes C block reading dir items) : Appendable C block dir items := by
  have hends := appendBlockWith_ends C block reading dir
  have happended := hkeeps.appended
  generalize appendBlockWith C block reading dir = out at hends happended
  -- an append that wrote, so that what was read back is what it extended
  cases hends with
  | left hanswer hnone => exact absurd hp (hnone items)
  | @written items' hp' =>
    obtain rfl : items' = items := Option.some.inj (hp'.2.1.symm.trans hp.2.1)
    obtain ⟨chain, hchain, hextends, hafter⟩ := happended rfl
    obtain ⟨front, hfront, hsame⟩ := persisted_holding.mp hafter
    obtain ⟨rfl, hreread⟩ := List.append_inj' hsame rfl
    refine ⟨?_, ⟨chain, hfront⟩, ((extends_iff hfront).mp hextends).2, ?_⟩
    · rcases entries_of_rawText hp.2.1 with hstored | rfl
      · exact hstored
      · -- read as empty, and all that is stored decodes to no block
        cases hfront
        exact entries_of_persisted_nil hchain
    · exact Block.reread_eq_iff.mp (List.singleton_inj.mp hreread).symm

theorem keepsPersisted_of_appendable {C : Crypto} {block : Block} {reading : Reading}
    {dir : DataDir}
    (happendable : ∀ items, Passes C block reading dir items → Appendable C block dir items) :
    KeepsPersisted C block reading dir := by
  have hends := appendBlockWith_ends C block reading dir
  constructor
  all_goals generalize appendBlockWith C block reading dir = out at hends ⊢
  · intro htrue
    cases hends with
    | left hanswer hnone => exact absurd htrue hanswer
    | @written items hp =>
      -- what was read is what is stored, and the whole of it decodes
      obtain ⟨hstored, ⟨chain, hdecoded⟩, hfirst, hfilled⟩ := happendable items hp
      refine ⟨chain, ?_, (extends_iff hdecoded).mpr ⟨hp.2.2, hfirst⟩, ?_⟩
      · rw [persisted_eq hstored, hdecoded]
        rfl
      · refine persisted_holding.mpr ⟨chain, hdecoded, ?_⟩
        rw [Block.reread_of_filled C hfilled]
  · intro hanswer
    cases hends with
    | left _ hnone => rfl
    | written hp => exact absurd rfl hanswer

/-- A file that can be read and holds a chain this program wrote is safe,
whatever filled block comes. -/
theorem keepsPersisted_of_holds {C : Crypto} {block : Block} {chain : List Block} {dir : DataDir}
    (hne : chain ≠ []) (hfilled : block.Filled) (h : Holds chain dir) :
    KeepsPersisted C block .whole dir := by
  have hstored : entries dir.file = some (chain.map Block.toJson) := by rw [h, chainText, entries]
  refine keepsPersisted_of_appendable fun items hp => ?_
  obtain rfl : chain.map Block.toJson = items := by
    have hread := hp.2.1
    rw [rawText, readFile, h, chainText] at hread
    exact Option.some.inj hread
  have hdecoded := mapM_encoded (Block.fromJson_toJson C) chain
  exact ⟨hstored, ⟨_, hdecoded⟩, fun hnil => absurd (List.map_eq_nil_iff.mp hnil) hne, hfilled⟩

/-- **Storage hardening, with its exact condition.** A call keeps its promise,
that no stored block is lost and the new one extends the stored chain, exactly
when the entries that let the block pass, if there are such, are the ones that
are stored, all of them decode, the block is the first one only with index 0,
and it was filled in. -/
theorem append_keeps_persisted_iff (C : Crypto) (block : Block) (reading : Reading)
    (dir : DataDir) :
    KeepsPersisted C block reading dir ↔
      ∀ items, Passes C block reading dir items → Appendable C block dir items :=
  ⟨fun hkeeps _ => appendable_of_keepsPersisted hkeeps, keepsPersisted_of_appendable⟩

/-! ## A file that cannot be opened -/

/-- A stored chain that cannot be read is replaced by the block. -/
theorem appendBlockWith_unreadable (C : Crypto) (block : Block) (dir : DataDir) :
    appendBlockWith C block (.cut 0) dir = (some true, holding [block.toJson]) := by
  have hraw : rawText (.cut 0) dir = none := by
    rw [rawText]
    cases readFile dir <;> rfl
  have hwrites := @appendTo_of_entries C block none [] (.inl ⟨rfl, rfl⟩)
    (by simp [Continues])
  rw [appendBlockWith_ok (by simp) (hraw ▸ hwrites), atomicWrite_run]
  rfl

/-- The file holds a block, the next one links to it, and opening fails. -/
theorem append_keeps_persisted_counterexample :
    ¬ KeepsPersisted (.ofTable [] []) { index := 1, previousHash := "00a1", hash := "00b2" }
      (.cut 0) { file := some (chainText [{ hash := "00a1" }]) } := by
  intro hkeeps
  have happended := hkeeps.appended
  rw [appendBlockWith_unreadable] at happended
  obtain ⟨chain, hchain, -, hafter⟩ := happended rfl
  obtain ⟨front, hfront, hsame⟩ := (@persisted_holding _ [] _ _).mp hafter
  cases hfront
  obtain ⟨rfl, -⟩ := List.append_inj' hsame rfl
  -- the file had one entry, not none
  cases entries_of_persisted_nil hchain

end LevelDBManager

end PersonalBlockchain
