import NdnExt.Lib.HashMap
import NdnExt.Ndnsf.Messages

/-! Provider tokens: issued with an acknowledgement, consumed once by a selection. -/

namespace NdnExt.Ndnsf

open NdnExt.Lib

structure ProviderToken where
  wire : String
  deriving DecidableEq

structure PendingCoordination where
  requester : Name
  service : Name
  userToken : String
  deriving DecidableEq

inductive TokenError where
  | unknown
  | expired
  | unauthorized
  deriving DecidableEq

def maxPendingTokens : Nat := 8192

structure PendingProviderTokens where
  entries : HashMap ProviderToken (PendingCoordination × Nat)
  ttlSecs : Nat

namespace PendingProviderTokens

def new (ttlSecs : Nat) : PendingProviderTokens := ⟨∅, ttlSecs⟩

/-- The entries with room for one more: at the cap an arbitrary one is shed. -/
def shed (table : PendingProviderTokens) : HashMap ProviderToken (PendingCoordination × Nat) :=
  if table.entries.keys.length ≥ maxPendingTokens then
    match table.entries.keys.head? with
    | some victim => table.entries.erase victim
    | none => table.entries
  else table.entries

/-- `drawn` is the random token. -/
def issue (table : PendingProviderTokens) (nowSecs : Nat) (requester service : Name)
    (userToken : String) (drawn : ProviderToken) : PendingProviderTokens :=
  { table with entries := table.shed.insert drawn (⟨requester, service, userToken⟩, nowSecs) }

def isExpired (table : PendingProviderTokens) (createdAtSecs nowSecs : Nat) : Bool :=
  nowSecs - createdAtSecs ≥ table.ttlSecs

def consume (table : PendingProviderTokens) (nowSecs : Nat) (token : ProviderToken)
    (requester : Name) : Outcome TokenError PendingCoordination × PendingProviderTokens :=
  match table.entries.lookup token with
  | none => (.err .unknown, table)
  | some (coord, created) =>
    if coord.requester ≠ requester then (.err .unauthorized, table)
    else if table.isExpired created nowSecs then
      (.err .expired, { table with entries := table.entries.erase token })
    else (.ok coord, { table with entries := table.entries.erase token })

/-- A pending token of `requester` that `accepts` holds of. -/
def candidate (table : PendingProviderTokens) (requester : Name) (accepts : String → Bool) :
    Option ProviderToken :=
  (table.entries.pairs.find? (fun item =>
    item.2.1.requester = requester && accepts item.1.wire)).map Prod.fst

def consumeWhere (table : PendingProviderTokens) (nowSecs : Nat) (requester : Name)
    (accepts : String → Bool) :
    Outcome TokenError PendingCoordination × PendingProviderTokens :=
  match table.candidate requester accepts with
  | none => (.err .unknown, table)
  | some token =>
    match table.entries.lookup token with
    | none => (.panic, table)
    | some (coord, created) =>
      if table.isExpired created nowSecs then
        (.err .expired, { table with entries := table.entries.erase token })
      else (.ok coord, { table with entries := table.entries.erase token })

def cleanupExpired (table : PendingProviderTokens) (nowSecs : Nat) :
    Nat × PendingProviderTokens :=
  let kept := table.entries.retain (fun _ entry => nowSecs - entry.2 < table.ttlSecs)
  (table.entries.keys.length - kept.keys.length, { table with entries := kept })

end PendingProviderTokens

inductive FlowError where
  | tokenRejected (error : TokenError)
  | notForUs
  deriving DecidableEq

structure ProviderEngine where
  tokens : PendingProviderTokens

/-- `map_err(TokenRejected)`. -/
def rejected {A : Type} : Outcome TokenError A → Outcome FlowError A
  | .ok value => .ok value
  | .err error => .err (.tokenRejected error)
  | .panic => .panic

namespace ProviderEngine

def new (ttlSecs : Nat) : ProviderEngine := ⟨.new ttlSecs⟩

def issueToken (engine : ProviderEngine) (nowSecs : Nat) (requester service : Name)
    (userToken : String) (drawn : ProviderToken) : ProviderEngine :=
  ⟨engine.tokens.issue nowSecs requester service userToken drawn⟩

def onRequest (engine : ProviderEngine) (nowSecs : Nat) (requester service : Name)
    (req : RequestMessage) (drawn : ProviderToken) : AckMessage × ProviderEngine :=
  (⟨true, "", req.userToken, drawn.wire, []⟩,
    engine.issueToken nowSecs requester service req.userToken drawn)

def consumeSelection (engine : ProviderEngine) (nowSecs : Nat) (sel : SelectionMessage)
    (requester : Name) : Outcome FlowError PendingCoordination × ProviderEngine :=
  let result := engine.tokens.consume nowSecs ⟨sel.providerToken⟩ requester
  (rejected result.1, ⟨result.2⟩)

def consumeSelectionCompact (wire : Wire) (engine : ProviderEngine) (nowSecs : Nat)
    (sel : SelectionMessage) (requester node service : Name) :
    Outcome FlowError (PendingCoordination × Bytes) × ProviderEngine :=
  match sel.providerEntries.find? (fun entry => entry.providerName = node) with
  | none => (.err .notForUs, engine)
  | some entry =>
    if entry.providerTokenHash = "" then (.err (.tokenRejected .unknown), engine)
    else
      let result := engine.tokens.consumeWhere nowSecs requester (fun token =>
        selectionTokenProofHash wire requester node service token = entry.providerTokenHash)
      (do return (← rejected result.1, entry.assignmentPayload), ⟨result.2⟩)

def onSelection (engine : ProviderEngine) (nowSecs : Nat) (sel : SelectionMessage)
    (requester : Name) (handler : PendingCoordination → Bytes) :
    Outcome FlowError ResponseMessage × ProviderEngine :=
  match engine.consumeSelection nowSecs sel requester with
  | (.ok coord, engine) => (.ok ⟨true, "", handler coord⟩, engine)
  | (.err error, engine) => (.err error, engine)
  | (.panic, engine) => (.panic, engine)

def cleanupExpired (engine : ProviderEngine) (nowSecs : Nat) : Nat × ProviderEngine :=
  let result := engine.tokens.cleanupExpired nowSecs
  (result.1, ⟨result.2⟩)

end ProviderEngine

namespace PendingProviderTokens

variable {table : PendingProviderTokens} {nowSecs : Nat} {token : ProviderToken}
  {requester : Name} {accepts : String → Bool}

theorem candidate_some (found : table.candidate requester accepts = some token) :
    ∃ coord created, table.entries.lookup token = some (coord, created) ∧
      coord.requester = requester ∧ accepts token.wire := by
  rcases Option.map_eq_some_iff.mp found with ⟨⟨key, coord, created⟩, first, same⟩
  subst same
  have holds := List.find?_some first
  have member := HashMap.mem_pairs.mp (List.mem_of_find?_eq_some first)
  simp only [Bool.and_eq_true, decide_eq_true_eq] at holds
  exact ⟨coord, created, member, holds⟩

theorem candidate_none (missing : table.candidate requester accepts = none)
    {coord : PendingCoordination} {created : Nat}
    (found : table.entries.lookup token = some (coord, created))
    (own : coord.requester = requester) : ¬ accepts token.wire := by
  have none := List.find?_eq_none.mp (Option.map_eq_none_iff.mp missing) _
    (HashMap.mem_pairs.mpr found)
  simpa [own] using none

/-- What a redemption does to the table, whichever way the token is presented: a rejected one
removes no token but the one presented, and that one only if it has expired. -/
inductive Redeems {E : Type} (table : PendingProviderTokens) (nowSecs : Nat) (requester : Name)
    (presents : ProviderToken → Prop) :
    Outcome E PendingCoordination → PendingProviderTokens → Prop
  | none {error} : (∀ token coord created, table.entries.lookup token = some (coord, created) →
      coord.requester = requester → ¬ presents token) →
      Redeems table nowSecs requester presents (.err error) table
  | expired {token coord created error} : presents token →
      table.entries.lookup token = some (coord, created) → coord.requester = requester →
      table.ttlSecs ≤ nowSecs - created →
      Redeems table nowSecs requester presents (.err error)
        { table with entries := table.entries.erase token }
  | redeemed {token coord created} : presents token →
      table.entries.lookup token = some (coord, created) → coord.requester = requester →
      nowSecs - created < table.ttlSecs →
      Redeems table nowSecs requester presents (.ok coord)
        { table with entries := table.entries.erase token }

theorem consume_redeems (table : PendingProviderTokens) (nowSecs : Nat) (token : ProviderToken)
    (requester : Name) :
    Redeems table nowSecs requester (fun presented => presented = token)
      (table.consume nowSecs token requester).1 (table.consume nowSecs token requester).2 := by
  unfold consume
  cases found : table.entries.lookup token with
  | none =>
    refine Redeems.none ?_
    intro presented coord created present _ same
    rw [same, found] at present
    cases present
  | some entry =>
    rcases entry with ⟨coord, created⟩
    dsimp only
    split
    · next other =>
      refine Redeems.none ?_
      intro presented coord' created' present own same
      rw [same, found] at present
      cases present
      exact other own
    · next own =>
      have own := not_not.mp own
      split
      · next late => exact Redeems.expired rfl found own (by simpa [isExpired] using late)
      · next time => exact Redeems.redeemed rfl found own (by simpa [isExpired] using time)

theorem consumeWhere_redeems (table : PendingProviderTokens) (nowSecs : Nat) (requester : Name)
    (accepts : String → Bool) :
    Redeems table nowSecs requester (fun presented => accepts presented.wire)
      (table.consumeWhere nowSecs requester accepts).1
      (table.consumeWhere nowSecs requester accepts).2 := by
  unfold consumeWhere
  cases first : table.candidate requester accepts with
  | none => exact Redeems.none (fun _ _ _ found own => candidate_none first found own)
  | some token =>
    rcases candidate_some first with ⟨coord, created, found, own, accepted⟩
    dsimp only
    rw [found]
    dsimp only
    split
    · next late => exact Redeems.expired accepted found own (by simpa [isExpired] using late)
    · next time => exact Redeems.redeemed accepted found own (by simpa [isExpired] using time)

variable {presents : ProviderToken → Prop} {E : Type}

theorem Redeems.rejected {next : PendingProviderTokens}
    {answer : Outcome TokenError PendingCoordination}
    (redeems : Redeems table nowSecs requester presents answer next) :
    Redeems table nowSecs requester presents (rejected answer) next := by
  cases redeems with
  | none absent => exact Redeems.none absent
  | expired presented found own late => exact Redeems.expired presented found own late
  | redeemed presented found own time => exact Redeems.redeemed presented found own time

section

variable {next : PendingProviderTokens} {answer : Outcome E PendingCoordination} (redeems : Redeems
  table nowSecs requester presents answer next)
include redeems

theorem Redeems.congr {presents' : ProviderToken → Prop}
    (same : ∀ token, presents token ↔ presents' token) :
    Redeems table nowSecs requester presents' answer next := by
  cases redeems with
  | none absent =>
    exact Redeems.none (fun token coord created found own presented =>
      absent token coord created found own ((same token).mpr presented))
  | expired presented found own late =>
    exact Redeems.expired ((same _).mp presented) found own late
  | redeemed presented found own time =>
    exact Redeems.redeemed ((same _).mp presented) found own time

theorem Redeems.known {other : ProviderToken}
    {entry : PendingCoordination × Nat} (found : next.entries.lookup other = some entry) :
    table.entries.lookup other = some entry := by
  cases redeems with
  | none => exact found
  | expired | redeemed => exact (HashMap.lookup_erase_eq_some.mp found).2

theorem Redeems.ttl :
    next.ttlSecs = table.ttlSecs := by
  cases redeems with
  | none | expired | redeemed => rfl

end

theorem keys_erase_length (entries : HashMap ProviderToken (PendingCoordination × Nat))
    (token : ProviderToken) : (entries.erase token).keys.length ≤ entries.keys.length := by
  rw [AList.keys_erase]
  exact List.length_erase_le

theorem Redeems.shrinks
    {next : PendingProviderTokens} {answer : Outcome E PendingCoordination}
    (redeems : Redeems table nowSecs requester presents answer next) :
    next.entries.keys.length ≤ table.entries.keys.length := by
  cases redeems with
  | none => exact Nat.le_refl _
  | expired | redeemed => exact keys_erase_length _ _

end PendingProviderTokens
end NdnExt.Ndnsf
