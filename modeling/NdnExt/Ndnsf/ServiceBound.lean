import NdnExt.Ndnsf.SingleUse

/-! Which service a redeemed token is for. -/

namespace NdnExt.Ndnsf

open NdnExt.Lib PendingProviderTokens

/-- The same pending tokens: a hash map promises no order of iteration. -/
def SameTokens (engine other : ProviderEngine) : Prop :=
  other.tokens.ttlSecs = engine.tokens.ttlSecs ∧
    ∀ token, other.tokens.entries.lookup token = engine.tokens.entries.lookup token

variable (wire : Wire)

def UnlocksNamed (engine : ProviderEngine) (nowSecs : Nat) (sel : SelectionMessage)
    (requester node service : Name) : Prop :=
  ∀ coordination payload,
    (engine.consumeSelectionCompact wire nowSecs sel requester node service).1 =
      .ok (coordination, payload) →
    coordination.service = service ∧ coordination.requester = requester

/-- Every live token of the requester that the selection presents as one for `service` was issued
for it. -/
def PresentsOwnService (engine : ProviderEngine) (nowSecs : Nat) (sel : SelectionMessage)
    (requester node service : Name) : Prop :=
  ∀ token coord created, engine.tokens.entries.lookup token = some (coord, created) →
    coord.requester = requester → nowSecs - created < engine.tokens.ttlSecs →
    Presents wire (.consumeCompact sel requester node service) token → coord.service = service

variable {wire}

/-- An unlocked coordination is that of a live token which the selection presents. -/
theorem unlocked_from {engine : ProviderEngine} {nowSecs : Nat} {sel : SelectionMessage}
    {requester node service : Name} {coordination : PendingCoordination} {payload : Bytes}
    (unlocked : (engine.consumeSelectionCompact wire nowSecs sel requester node service).1 =
      .ok (coordination, payload)) :
    ∃ token created, Presents wire (.consumeCompact sel requester node service) token ∧
      engine.tokens.entries.lookup token = some (coordination, created) ∧
      coordination.requester = requester ∧ nowSecs - created < engine.tokens.ttlSecs := by
  have redeems := @consumeCompact_call wire engine nowSecs sel requester node service
  rw [unlocked] at redeems
  generalize (engine.consumeSelectionCompact wire nowSecs sel requester node service).2.tokens =
    next at redeems
  cases redeems with
  | redeemed presented found own time => exact ⟨_, _, presented, found, own, time⟩

/-- Where a live token of the requester's comes first in the table, it is the one redeemed. -/
theorem first_redeemed {engine : ProviderEngine} {nowSecs : Nat} {sel : SelectionMessage}
    {requester node service : Name} {token : ProviderToken} {coord : PendingCoordination}
    {created : Nat} {rest : List (ProviderToken × PendingCoordination × Nat)}
    (first : engine.tokens.entries.pairs = (token, coord, created) :: rest)
    (own : coord.requester = requester) (time : nowSecs - created < engine.tokens.ttlSecs)
    (presented : Presents wire (.consumeCompact sel requester node service) token) :
    ∃ payload, (engine.consumeSelectionCompact wire nowSecs sel requester node service).1 =
      .ok (coord, payload) := by
  obtain ⟨entry, selected, shown, hash⟩ := presented
  have found : engine.tokens.entries.lookup token = some (coord, created) :=
    HashMap.mem_pairs.mp (first ▸ List.mem_cons_self)
  have live : ¬engine.tokens.isExpired created nowSecs := by simpa [isExpired] using time
  refine ⟨entry.assignmentPayload, ?_⟩
  have candidate : engine.tokens.candidate requester (fun token =>
      selectionTokenProofHash wire requester node service token = entry.providerTokenHash) =
        some token := by
    rw [PendingProviderTokens.candidate, first, List.find?_cons_of_pos (by simp [own, hash])]
    rfl
  simp only [ProviderEngine.consumeSelectionCompact, selected, if_neg shown, consumeWhere, candidate,
    found, live]
  rfl

/-- A selection unlocks only the service it is made for exactly when it presents no live token of
the requester's that was issued for another one. -/
theorem unlocks_named_iff (wire : Wire) (engine : ProviderEngine) (nowSecs : Nat)
    (sel : SelectionMessage) (requester node service : Name) :
    (∀ other, SameTokens engine other →
      UnlocksNamed wire other nowSecs sel requester node service) ↔
      PresentsOwnService wire engine nowSecs sel requester node service := by
  constructor
  · intro named token coord created found own time presented
    let other : ProviderEngine :=
      ⟨{ engine.tokens with entries := (engine.tokens.entries.erase token).insert token (coord, created) }⟩
    have same : SameTokens engine other := by
      refine ⟨rfl, ?_⟩
      intro key
      simp only [other, HashMap.lookup_insert_eq, HashMap.lookup_erase_eq]
      by_cases first : key = token
      · rw [if_pos first, first, found]
      · rw [if_neg first, if_neg first]
    have first : other.tokens.entries.pairs = (token, coord, created) :: _ := rfl
    obtain ⟨payload, unlocked⟩ := first_redeemed first own time presented
    exact (named other same coord payload unlocked).1
  · intro bound other same coordination payload unlocked
    obtain ⟨token, created, presented, found, own, time⟩ := unlocked_from unlocked
    rw [same.2] at found
    rw [same.1] at time
    exact ⟨bound token coordination created found own time presented, own⟩

def ProviderEngine.after (wire : Wire) (ttlSecs : Nat) (calls : List TokenCall) : ProviderEngine :=
  calls.foldl (fun engine input => (engine.call wire input).2) (.new ttlSecs)

def issueForCamera : TokenCall where
  nowSecs := 100
  op := .issue (plain ["muas", "alice"]) (plain ["svc", "camera"]) "u1" ⟨"deadbeef"⟩

/-- Alice redeems her token for the camera as one for the weather. -/
theorem camera_token_unlocks_weather :
    ¬∀ (wire : Wire) (ttlSecs : Nat) (calls : List TokenCall) (nowSecs : Nat)
      (sel : SelectionMessage) (requester node service : Name),
      UnlocksNamed wire (ProviderEngine.after wire ttlSecs calls) nowSecs sel requester node
        service := by
  intro named
  let sel : SelectionMessage := ⟨"", "r1", [⟨plain ["met", "stationA"], pinnedDigest, []⟩], 1⟩
  have hash : selectionTokenProofHash pinnedWire (plain ["muas", "alice"])
      (plain ["met", "stationA"]) (plain ["svc", "weather"]) "deadbeef" = pinnedDigest := by
    decide +kernel
  have presented : Presents pinnedWire (.consumeCompact sel (plain ["muas", "alice"])
      (plain ["met", "stationA"]) (plain ["svc", "weather"])) ⟨"deadbeef"⟩ :=
    ⟨⟨plain ["met", "stationA"], pinnedDigest, []⟩, by decide +kernel, by decide, hash⟩
  have first : (ProviderEngine.after pinnedWire 60 [issueForCamera]).tokens.entries.pairs =
      [(⟨"deadbeef"⟩, ⟨plain ["muas", "alice"], plain ["svc", "camera"], "u1"⟩, 100)] := by
    decide +kernel
  obtain ⟨payload, unlocked⟩ := @first_redeemed pinnedWire _ 120 _ _ _ _ _ _ _ _ first rfl
    (by decide) presented
  have wrong := (named pinnedWire 60 [issueForCamera] 120 sel _ _ _ _ _ unlocked).1
  exact absurd wrong (by decide +kernel)

end NdnExt.Ndnsf
