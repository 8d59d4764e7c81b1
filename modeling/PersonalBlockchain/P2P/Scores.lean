import PersonalBlockchain.P2P.Runs

/-!
# Personal blockchain — what the scorer has on record

What a change makes of the pings that wait for their pongs and of the standing
of endpoints. The scorer knows endpoints, not connections.
-/

namespace PersonalBlockchain

open Locking Routine NodeM Machine

variable {S : NodeSetup} {node node' : Node} {now : Instant} {c : NodeChange} {p : PeerId}
  {key : String}

/-- What a change makes of the scorer: nothing that pings or standings show, or
one of its operations, which the kind of the change names with its endpoint. -/
theorem NodeChange.Leads.peerScorer (h : c.Leads now node node') :
    ((∀ key, node'.peerScorer.awaitsSince key = node.peerScorer.awaitsSince key) ∧
      ∀ key, node'.peerScorer.standing key = node.peerScorer.standing key) ∨
    (c = .enroll ∧ ∃ host port, node'.peerScorer = node.peerScorer.addPeer now host port) ∨
    (c = .evict ∧ ∃ staleSeconds,
      node'.peerScorer = node.peerScorer.evictStalePeers now staleSeconds) ∨
    (∃ key amount, c = .reward key ∧ 0 ≤ amount ∧
      node'.peerScorer = node.peerScorer.rewardPeer key amount) ∨
    (∃ key penalty, c = .penalize key ∧ penalty ≤ 0 ∧
      node'.peerScorer = (node.peerScorer.penalizePeer key penalty).2) ∨
    (∃ p, c = .ping p ∧ node'.peerScorer =
      node.peerScorer.markPingSent now (node.connection p).getEndpoint) ∨
    ∃ key, c = .pong key ∧ node'.peerScorer = node.peerScorer.markPongReceived now key := by
  cases c with
  -- the changes that leave the scorer alone
  | quiet => exact .inl ⟨Quiet.awaits h, Quiet.standing h⟩
  | shut key =>
    obtain ⟨_, -, hquiet⟩ := h
    exact .inl ⟨hquiet.awaits, hquiet.standing⟩
  | «open» remote port key direction => exact .inl ⟨h.2.awaits, h.2.standing⟩
  | ledger | remember | count p =>
    obtain ⟨_, rfl⟩ := h
    exact .inl ⟨fun _ => rfl, fun _ => rfl⟩
  | see | close direction =>
    obtain ⟨_, _, rfl⟩ := h
    exact .inl ⟨fun _ => rfl, fun _ => rfl⟩
  | send =>
    obtain ⟨_, _, _, rfl⟩ := h
    exact .inl ⟨fun _ => rfl, fun _ => rfl⟩
  | broadcast msg =>
    obtain ⟨exclude, rfl⟩ := h
    obtain ⟨connection, heq, -⟩ := broadcasted_eq msg exclude node
    rw [heq]
    exact .inl ⟨fun _ => rfl, fun _ => rfl⟩
  | listenPort p port | clean | disconnect p =>
    obtain rfl := h
    exact .inl ⟨fun _ => rfl, fun _ => rfl⟩
  | flush p =>
    obtain rfl | rfl := h
    · exact .inl ⟨fun _ => rfl, fun _ => rfl⟩
    · exact .inl ⟨fun _ => rfl, fun _ => rfl⟩
  -- and those that are calls of it
  | enroll =>
    obtain ⟨host, port, rfl⟩ := h
    exact .inr (.inl ⟨rfl, host, port, rfl⟩)
  | evict =>
    obtain ⟨staleSeconds, rfl⟩ := h
    exact .inr (.inr (.inl ⟨rfl, staleSeconds, rfl⟩))
  | reward key =>
    obtain ⟨amount, hamount, rfl⟩ := h
    exact .inr (.inr (.inr (.inl ⟨key, amount, rfl, hamount, rfl⟩)))
  | penalize key =>
    obtain ⟨penalty, hpenalty, rfl⟩ := h
    exact .inr (.inr (.inr (.inr (.inl ⟨key, penalty, rfl, hpenalty, rfl⟩))))
  | ping p =>
    obtain rfl := h
    exact .inr (.inr (.inr (.inr (.inr (.inl ⟨p, rfl, rfl⟩)))))
  | pong key =>
    obtain rfl := h
    exact .inr (.inr (.inr (.inr (.inr (.inr ⟨key, rfl, rfl⟩)))))

/-! ## Pongs that are awaited -/

/-- Only a ping makes the scorer wait. -/
theorem NodeChange.Leads.awaitsSince (h : c.Leads now node node') (hping : ∀ p, c ≠ .ping p)
    {t : Instant} (ht : node'.peerScorer.awaitsSince key = some t) :
    node.peerScorer.awaitsSince key = some t := by
  rcases h.peerScorer with ⟨hawaits, -⟩ | ⟨-, _, _, heq⟩ | ⟨-, _, heq⟩ | ⟨_, _, -, -, heq⟩ |
    ⟨_, _, -, -, heq⟩ | ⟨p, hc, -⟩ | ⟨other, -, heq⟩
  · exact hawaits key ▸ ht
  · rwa [heq, PeerScorer.awaitsSince_addPeer] at ht
  · exact PeerScorer.awaitsSince_of_evictStalePeers (heq ▸ ht)
  · rwa [heq, PeerScorer.awaitsSince_rewardPeer] at ht
  · rwa [heq, PeerScorer.awaitsSince_penalizePeer] at ht
  · exact absurd hc (hping p)
  · rw [heq, PeerScorer.awaitsSince_markPongReceived] at ht
    split at ht
    · cases ht
    · exact ht

/-- What is awaited after changes without a ping was awaited before them. -/
theorem awaitsSince_of_changes {K : Set NodeChange} {t : Instant}
    (h : Relation.ReflTransGen (OneOf S now K) node node') (hlimited : node.Limited S)
    (hK : ∀ c ∈ K, ∀ p, c ≠ .ping p) (ht : node'.peerScorer.awaitsSince key = some t) :
    node.peerScorer.awaitsSince key = some t :=
  (keeps_of_changes h hlimited (I := fun last =>
    last.peerScorer.awaitsSince key = some t → node.peerScorer.awaitsSince key = some t)
    (fun c hc _ _ hleads hI ht => hI (hleads.awaitsSince (hK c hc) ht)) id).1 ht

/-! ## Standing -/

theorem NodeChange.Leads.sound (h : c.Leads now node node') (hsound : node.peerScorer.Sound) :
    node'.peerScorer.Sound := by
  -- an entry that stays, goes or is new
  have hsame : (∀ key, node'.peerScorer.standing key = node.peerScorer.standing key ∨
      node'.peerScorer.standing key = none ∨
      node'.peerScorer.standing key = some (PeerScorer.initialScore, false)) →
      node'.peerScorer.Sound := by
    intro hsame key score banned hkey
    rcases hsame key with heq | heq | heq
    · exact hsound key score banned (heq ▸ hkey)
    · rw [heq] at hkey
      cases hkey
    · rw [heq] at hkey
      cases hkey
      exact ⟨by decide, fun _ => by decide⟩
  rcases h.peerScorer with ⟨-, hstanding⟩ | ⟨-, _, _, heq⟩ | ⟨-, _, heq⟩ | ⟨_, _, -, hamount, heq⟩ |
    ⟨_, _, -, hpenalty, heq⟩ | ⟨_, -, heq⟩ | ⟨_, -, heq⟩
  · exact hsame fun key => .inl (hstanding key)
  · rw [heq] at hsame ⊢
    exact hsame fun key => PeerScorer.standing_addPeer.imp id fun hnew => .inr hnew.2
  · rw [heq] at hsame ⊢
    exact hsame fun key => PeerScorer.standing_evictStalePeers.imp id .inl
  · exact heq ▸ hsound.rewardPeer hamount
  · exact heq ▸ hsound.penalizePeer hpenalty
  · rw [heq] at hsame ⊢
    exact hsame fun key => .inl PeerScorer.standing_markPingSent
  · rw [heq] at hsame ⊢
    exact hsame fun key => .inl PeerScorer.standing_markPongReceived

theorem nodeStep_sound {event : NodeEvent} {u : Unit}
    (h : nodeStep S event node = some (u, node')) (hlimited : node.Limited S)
    (hsound : node.peerScorer.Sound) : node'.peerScorer.Sound :=
  (keeps_of_changes (nodeStep_changes h) hlimited (I := fun last => last.peerScorer.Sound)
    (fun _ _ _ _ hleads => hleads.sound) hsound).1

/-- Where an endpoint is neither rewarded nor penalized, its standing stays, or
the endpoint is forgotten. -/
theorem standing_of_changes {K : Set NodeChange} {x : Int × Bool}
    (h : Relation.ReflTransGen (OneOf S now K) node node') (hlimited : node.Limited S)
    (hK : ∀ c ∈ K, c ≠ .reward key ∧ c ≠ .penalize key)
    (hforget : NodeChange.evict ∈ K → NodeChange.enroll ∉ K)
    (hx : node.peerScorer.standing key = some x) :
    node'.peerScorer.standing key = some x ∨
      node'.peerScorer.standing key = none ∧ NodeChange.evict ∈ K := by
  refine (keeps_of_changes h hlimited (I := fun last =>
    last.peerScorer.standing key = some x ∨
      last.peerScorer.standing key = none ∧ NodeChange.evict ∈ K)
    (fun c hc s s' hleads hI => ?_) (.inl hx)).1
  have hsame : s'.peerScorer.standing key = s.peerScorer.standing key →
      s'.peerScorer.standing key = some x ∨
        s'.peerScorer.standing key = none ∧ NodeChange.evict ∈ K := fun heq => heq ▸ hI
  -- only a stale entry is lost, and it does not come back
  rcases hleads.peerScorer with ⟨-, hstanding⟩ | ⟨rfl, _, _, heq⟩ | ⟨rfl, _, heq⟩ |
    ⟨other, _, rfl, -, heq⟩ | ⟨other, _, rfl, -, heq⟩ | ⟨_, -, heq⟩ | ⟨_, -, heq⟩
  · exact hsame (hstanding key)
  · rw [heq] at hsame ⊢
    rcases PeerScorer.standing_addPeer with hstill | ⟨hnone, -⟩
    · exact hsame hstill
    · rcases hI with hI | hI
      · rw [hI] at hnone
        cases hnone
      · exact absurd hc (hforget hI.2)
  · rw [heq] at hsame ⊢
    rcases PeerScorer.standing_evictStalePeers with hstill | hnone
    · exact hsame hstill
    · exact .inr ⟨hnone, hc⟩
  · refine hsame (heq ▸ PeerScorer.standing_rewardPeer_of_ne fun hother => ?_)
    exact (hK _ hc).1 (hother ▸ rfl)
  · refine hsame (heq ▸ PeerScorer.standing_penalizePeer_of_ne fun hother => ?_)
    exact (hK _ hc).2 (hother ▸ rfl)
  · exact hsame (heq ▸ PeerScorer.standing_markPingSent)
  · exact hsame (heq ▸ PeerScorer.standing_markPongReceived)

end PersonalBlockchain
