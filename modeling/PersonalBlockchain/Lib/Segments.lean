import Mathlib.Data.List.Basic
import Mathlib.Tactic.Common

/-!
# A stream that comes in pieces

A stream arrives in pieces, one with every read. `readUntil` reads until a
delimiter has come, and then has read what follows it in the same piece as well;
`readExactly` goes on for a number of items. What they get depends on the stream
and not on where it is cut.

* `readUntil_some`, `readUntil_none` — against the first delimiter of the stream;
* `readExactly_eq` — against its first items.
-/

namespace Segments

variable {β : Type} [DecidableEq β] {delim xs ys buffer data : List β} {cut : List β × List β}
  {reads rest : List (List β)}

/-- Cuts behind the first `delim`: what is read up to it, and what is behind it.
-/
def cutAfter (delim : List β) : List β → Option (List β × List β)
  | [] => none
  | b :: rest =>
    if delim.isPrefixOf (b :: rest) then some (delim, (b :: rest).drop delim.length)
    else (cutAfter delim rest).map fun cut => (b :: cut.1, cut.2)

/-- What is read when `delim` has come, and the reads still to be made; `none`
if it does not come. The piece that has the delimiter is read to its end. -/
def readUntil (delim : List β) (buffer : List β) :
    List (List β) → Option (List β × List (List β))
  | [] => none
  | piece :: reads =>
    if (cutAfter delim (buffer ++ piece)).isSome then some (buffer ++ piece, reads)
    else readUntil delim (buffer ++ piece) reads

/-- The next items; `none` if there are not enough. What is left of the last
piece is not used. -/
def readExactly : Nat → List (List β) → Option (List β)
  | 0, _ => some []
  | _ + 1, [] => none
  | n + 1, piece :: reads =>
    (readExactly (n + 1 - piece.length) reads).map fun more => piece.take (n + 1) ++ more

/-- The stream is what is before the cut and what is behind it. -/
theorem cutAfter_eq (h : cutAfter delim xs = some cut) :
    (∃ before, cut.1 = before ++ delim) ∧ cut.1 ++ cut.2 = xs := by
  induction xs generalizing cut with
  | nil => cases h
  | cons b rest ih =>
    rw [cutAfter] at h
    split_ifs at h with hprefix
    · cases h
      exact ⟨⟨[], rfl⟩, List.prefix_iff_eq_append.mp (List.isPrefixOf_iff_prefix.mp hprefix)⟩
    · obtain ⟨cut', hcut', rfl⟩ := Option.map_eq_some_iff.mp h
      obtain ⟨⟨before, hbefore⟩, heq⟩ := ih hcut'
      exact ⟨⟨b :: before, congrArg (b :: ·) hbefore⟩, congrArg (b :: ·) heq⟩

/-- A text with the delimiter is as long as the delimiter. -/
theorem delim_length_le (h : cutAfter delim xs = some cut) : delim.length ≤ xs.length := by
  obtain ⟨⟨before, hbefore⟩, heq⟩ := cutAfter_eq h
  rw [← heq, hbefore]
  simp only [List.length_append]
  omega

/-- More items behind the first delimiter do not move it, so a stream is cut
where its beginning is. -/
theorem cutAfter_append (h : cutAfter delim xs = some cut) (ys : List β) :
    cutAfter delim (xs ++ ys) = some (cut.1, cut.2 ++ ys) := by
  induction xs generalizing cut with
  | nil => cases h
  | cons b rest ih =>
    have hlonger := List.prefix_append (b :: rest) ys
    have hle := delim_length_le h
    rw [cutAfter] at h
    rw [List.cons_append, cutAfter, ← List.cons_append]
    split_ifs at h with hprefix
    · cases h
      rw [if_pos (List.isPrefixOf_iff_prefix.mpr
        ((List.isPrefixOf_iff_prefix.mp hprefix).trans hlonger)),
        List.drop_append_of_le_length hle]
    · obtain ⟨cut', hcut', rfl⟩ := Option.map_eq_some_iff.mp h
      -- the delimiter does not reach beyond the piece
      have hnot : ¬ delim.isPrefixOf (b :: rest ++ ys) = true := fun hmore =>
        hprefix (List.isPrefixOf_iff_prefix.mpr
          (List.prefix_of_prefix_length_le (List.isPrefixOf_iff_prefix.mp hmore) hlonger hle))
      rw [if_neg hnot, ih hcut']
      rfl

/-- What was read has the delimiter in it, and is cut where the whole stream is.
-/
theorem readUntil_some (h : readUntil delim buffer reads = some (data, rest)) :
    ∃ cut, cutAfter delim data = some cut ∧
      cutAfter delim (buffer ++ reads.flatten) = some (cut.1, cut.2 ++ rest.flatten) := by
  induction reads generalizing buffer with
  | nil => cases h
  | cons piece reads ih =>
    rw [readUntil] at h
    rw [List.flatten_cons, ← List.append_assoc]
    split_ifs at h with hcut
    · -- the delimiter has come with this piece, and the pieces behind it do not matter
      cases h
      obtain ⟨cut, hcut⟩ := Option.isSome_iff_exists.mp hcut
      exact ⟨cut, hcut, cutAfter_append hcut _⟩
    · exact ih h

/-- When the delimiter does not come, the stream has none. -/
theorem readUntil_none (hbuffer : cutAfter delim buffer = none)
    (h : readUntil delim buffer reads = none) :
    cutAfter delim (buffer ++ reads.flatten) = none := by
  induction reads generalizing buffer with
  | nil => rwa [List.flatten_nil, List.append_nil]
  | cons piece reads ih =>
    rw [readUntil] at h
    rw [List.flatten_cons, ← List.append_assoc]
    split_ifs at h with hcut
    exact ih (Option.not_isSome_iff_eq_none.mp hcut) h

/-- The first items of the stream, if it has so many: how it was cut into pieces
plays no part. -/
theorem readExactly_eq (n : Nat) (reads : List (List β)) : readExactly n reads =
    if n ≤ reads.flatten.length then some (reads.flatten.take n) else none := by
  induction reads generalizing n with
  | nil => cases n <;> rfl
  | cons piece reads ih =>
    cases n with
    | zero => simp [readExactly]
    | succ n =>
      rw [readExactly, ih, List.flatten_cons, List.length_append, List.take_append]
      -- enough in all, if and only if enough is left for the pieces behind
      split_ifs
      · rfl
      · omega
      · omega
      · rfl

end Segments
