import Mathlib.Data.List.Basic
import Mathlib.Tactic.Common

/-!
# Length-prefixed frames

A stream of items is cut into bodies by headers of a fixed width, each of
which says how long the next body is. A `Header` carries its own round trip,
for the sizes up to a limit; a header that announces more than the limit ends
the stream, and so does a body that is not complete.

* `split_frame_append` — the frame at the head of a stream is cut off, whatever
  comes after it;
* `split_frames` — a stream of frames is cut into their bodies.
-/

namespace Framing

/-- How the size of a body is written in front of it: in a fixed number of
items, and so that every size up to the limit is read back. A header that fails
to do so cannot be built. -/
structure Header (β : Type*) (limit : Nat) where
  width : Nat
  width_pos : 0 < width
  encode : Nat → List β
  decode : List β → Nat
  encode_length : ∀ n, (encode n).length = width
  decode_encode : ∀ n ≤ limit, decode (encode n) = n

variable {β : Type*} {limit : Nat}

/-- A body behind its header. -/
def Header.frame (h : Header β limit) (body : List β) : List β :=
  h.encode body.length ++ body

/-- The bodies of a stream, from its front: a header, the body it announces, and
so on. It ends with an incomplete header or body, and with a size over the
limit. -/
def split (h : Header β limit) (stream : List β) : List (List β) :=
  if stream.length < h.width then []
  else
    let size := h.decode (stream.take h.width)
    let rest := stream.drop h.width
    if limit < size ∨ rest.length < size then []
    else rest.take size :: split h (rest.drop size)
termination_by stream.length
decreasing_by
  have := h.width_pos
  simp only [List.length_drop]
  omega

/-- **One frame.** The frame at the head of a stream is cut off as its body, and
what comes after it is split as if it stood alone. -/
theorem split_frame_append (h : Header β limit) {body : List β} (hbody : body.length ≤ limit)
    (stream : List β) : split h (h.frame body ++ stream) = body :: split h stream := by
  have hwidth : (h.encode body.length).length = h.width := h.encode_length _
  have hhead : (h.frame body ++ stream).take h.width = h.encode body.length := by
    rw [Header.frame, List.append_assoc, List.take_left' hwidth]
  have hrest : (h.frame body ++ stream).drop h.width = body ++ stream := by
    rw [Header.frame, List.append_assoc, List.drop_left' hwidth]
  rw [split]
  simp only [hhead, hrest, h.decode_encode _ hbody]
  -- the header is complete, and the body behind it as well
  rw [if_neg (by simp only [Header.frame, List.length_append]; omega),
    if_neg (by simp only [List.length_append]; omega),
    List.take_left' rfl, List.drop_left' rfl]

/-- **A stream of frames** is split into the bodies they were made of: all of
them, in order, and nothing else. -/
theorem split_frames (h : Header β limit) {bodies : List (List β)}
    (hbodies : ∀ b ∈ bodies, b.length ≤ limit) : split h (bodies.flatMap h.frame) = bodies := by
  induction bodies with
  | nil =>
    rw [split, if_pos]
    exact h.width_pos
  | cons body rest ih =>
    rw [List.flatMap_cons, split_frame_append h (hbodies body List.mem_cons_self),
      ih fun b hb => hbodies b (List.mem_cons_of_mem _ hb)]

end Framing
