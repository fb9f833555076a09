import NdnExt.Discovery.Calls
import NdnExt.Lib.Run

/-! Whether the route to a provider that answers stays in the FIB. -/

namespace NdnExt.Discovery

open NdnExt.Lib NdnExt.Lib.Run List

def SdCall.ctx : SdCall → Context
  | .inbound ctx _ _ => ctx
  | .tick ctx _ => ctx
  | .faceDown ctx _ => ctx

/-- A finder between two calls. A browse Interest that was sent to the provider is `asked` until a
record of the provider comes, and `owed` until one comes that is not stale. -/
structure Live where
  sd : ServiceDiscovery
  lastTick : Nanos
  asked : Bool
  owed : Bool

namespace ServiceDiscovery

section Provider

variable (texts : Texts) (root peersPrefix : Name) (config : ServiceDiscoveryConfig)
  (front provider : Name) (face : FaceId)

/-- The record of the provider that a packet brings, where the verifier accepts it. -/
def providerRecord (data : RawData) : Option ServiceRecord :=
  (filtered texts root config data).filter fun r =>
    r.pair = (front, provider) && mayPopulate config data r

def Live.start (now : Nanos) : Live := ⟨new, now, false, false⟩

def Live.step (live : Live) (c : SdCall) : Live :=
  let after := call texts root peersPrefix config live.sd c
  match c with
  | .tick _ now =>
    let sent := after.2.contains (browseInterest root face)
    ⟨after.1, now, live.asked || sent, live.owed || sent⟩
  | .inbound _ (.data data) _ =>
    let answer := providerRecord texts root config front provider data
    ⟨after.1, live.lastTick, live.asked && answer.isNone,
      live.owed && answer.all fun r => stale live.sd.peerRecords r⟩
  | _ => { live with sd := after.1 }

/-- The clock goes on, ticks are at most a second apart, every browse Interest is answered before
the next one, and the face of the provider stays. -/
def Timely (live : Live) : SdCall → Prop
  | .tick _ now => live.lastTick ≤ now ∧ now ≤ live.lastTick + fromSecs 1 ∧ live.asked = false
  | .inbound ctx _ _ => live.lastTick ≤ ctx.now
  | .faceDown _ down => down ≠ face

instance (live : Live) (c : SdCall) : Decidable (Timely face live c) :=
  match c with
  | .tick _ _ => inferInstanceAs (Decidable (_ ∧ _))
  | .inbound _ _ _ => Nat.decLe _ _
  | .faceDown _ _ => inferInstanceAs (Decidable (_ ≠ _))

/-- No limit is hit. -/
def Unlimited (live : Live) (c : SdCall) : Prop :=
  Roomy config live.sd.peerRecords ∧ RoomyLimits config live.sd.rateLimits ∧
    ∀ packet ∈ c.data, ∀ record ∈ filtered texts root config packet.2,
      admits texts config live.sd packet.1 packet.2 record = true

/-- The records of the provider give a lifetime of at least 30 s. -/
def LongLived (c : SdCall) : Prop :=
  ∀ packet ∈ c.data, ∀ record ∈ providerRecord texts root config front provider packet.2,
    30000 ≤ ttlMs config record.freshnessMs

/-- The provider is a reachable neighbor on its face, and live. -/
def Attended (live : Live) (c : SdCall) : Prop :=
  c.ctx.neighbor provider = some ⟨provider, [face], true⟩ ∧ Timely face live c ∧
    Unlimited texts root config live c ∧ LongLived texts root config front provider c

/-- An answer that is not stale came before the tick; and no record of another node gives the route
a shorter lifetime. -/
def Renewing (live : Live) : SdCall → Prop
  | .tick _ _ => live.owed = false
  | .inbound ctx (.data data) incoming =>
    ∀ record ∈ filtered texts root config data, record.nodeName ≠ provider →
      mayPopulate config data record = true → record.announcedPrefix = front →
        fibFace ctx record.nodeName incoming = face → 30000 ≤ ttlMs config record.freshnessMs
  | _ => True

instance (live : Live) (c : SdCall) :
    Decidable (Renewing texts root config front provider face live c) :=
  match c with
  | .tick _ _ => inferInstanceAs (Decidable (_ = _))
  | .inbound _ (.data _) _ => inferInstanceAs (Decidable (∀ record ∈ _, _ → _ → _ → _ → _))
  | .inbound _ (.interest _) _ => .isTrue trivial
  | .faceDown _ _ => .isTrue trivial

instance (live : Live) (c : SdCall) :
    Decidable (Attended texts root config front provider face live c) := by
  unfold Attended Unlimited LongLived
  infer_instance

end Provider

variable {texts : Texts} {root peersPrefix : Name} {config : ServiceDiscoveryConfig}
  {front provider : Name} {face : FaceId}

/-- The routes for the prefix over the face last until the next tick and, 30 s from the last browse,
until an answer to the next one. -/
def LastsOver (live : Live) (e : AutoFibEntry) : Prop :=
  live.lastTick + fromSecs 1 < e.expiresAt ∧
    ∀ browsed ∈ live.sd.lastBrowse, browsed + fromSecs 30 ≤ e.expiresAt

structure Lasting (front : Name) (face : FaceId) (live : Live) : Prop where
  browsed : ∀ browsed ∈ live.sd.lastBrowse, browsed ≤ live.lastTick
  routes : live.owed = false → ∀ e ∈ live.sd.autoFib, e.front = front → e.faceId = face →
    LastsOver live e

theorem lasting_start (now : Nanos) : Lasting front face (Live.start now) :=
  ⟨nofun, fun _ _ among => nomatch among⟩

/-! ### Ticks -/

theorem sent_browseOne {periodicDue : Bool} {effect : Effect} {reachable : List NeighborEntry}
    {state : HashMap Name Unit × List Effect} (earlier : effect ∈ state.2) :
    effect ∈ (reachable.foldl (browseOne root periodicDue) state).2 := by
  induction reachable generalizing state with
  | nil => exact earlier
  | cons e rest ih => exact ih (mem_append_left _ earlier)

/-- When a browse is due, every face of a reachable neighbor is sent an Interest. -/
theorem sent_of_due {e : NeighborEntry} {reachable : List NeighborEntry}
    {state : HashMap Name Unit × List Effect} (among : e ∈ reachable) (has : face ∈ e.faces) :
    browseInterest root face ∈ (reachable.foldl (browseOne root true) state).2 := by
  induction reachable generalizing state with
  | nil => cases among
  | cons first rest ih =>
    rw [foldl_cons]
    rcases mem_cons.mp among with rfl | later
    · refine sent_browseOne (mem_append_right _ ?_)
      rw [Bool.or_true, if_pos rfl]
      exact mem_map_of_mem has
    · exact ih later

/-- The browse interval is no longer than half of what is left of any route. -/
theorem interval_le {fib : List AutoFibEntry} {e : AutoFibEntry} (among : e ∈ fib) (now : Nanos) :
    computeBrowseInterval fib now ≤ max ((e.expiresAt - now) / 2) (fromSecs 10) := by
  unfold computeBrowseInterval
  refine max_le_max ?_ (Nat.le_refl _)
  cases least : (fib.map fun e => (e.expiresAt - now) / 2).min? with
  | none =>
    rw [List.min?_eq_none_iff, map_eq_nil_iff] at least
    rw [least] at among
    cases among
  | some m =>
    exact (List.min?_eq_some_iff.mp least).2 _ (mem_map_of_mem among)

/-- A tick browses, or the last browse is not as long ago as the interval. -/
theorem tick_browses {sd : ServiceDiscovery} {ctx : Context} {now : Nanos}
    (neighbor : ctx.neighbor provider = some ⟨provider, [face], true⟩) :
    (browseInterest root face ∈ (onTick root config sd ctx now).2 ∧
        (onTick root config sd ctx now).1.lastBrowse = some now) ∨
      (onTick root config sd ctx now).1.lastBrowse = sd.lastBrowse ∧
        ∃ browsed, sd.lastBrowse = some browsed ∧
          now - browsed <
            computeBrowseInterval (sd.autoFib.filter fun e => now < e.expiresAt) now := by
  have among : (⟨provider, [face], true⟩ : NeighborEntry) ∈
      ctx.neighbors.filter NeighborEntry.isReachable :=
    mem_filter.mpr ⟨mem_of_find?_eq_some neighbor, rfl⟩
  cases due : sd.lastBrowse.all fun last =>
      now - last ≥ computeBrowseInterval (sd.autoFib.filter fun e => now < e.expiresAt) now with
  | true =>
    left
    unfold onTick browseNeighbors expireLocalRecords pruneRateLimits expireAutoFib
    dsimp only
    rw [due]
    exact ⟨mem_append_right _ (sent_of_due among mem_cons_self), rfl⟩
  | false =>
    right
    refine ⟨?_, ?_⟩
    · unfold onTick browseNeighbors expireLocalRecords pruneRateLimits expireAutoFib
      dsimp only
      rw [due]
      rfl
    · cases browsed : sd.lastBrowse with
      | none =>
        rw [browsed] at due
        cases due
      | some last =>
        rw [browsed, Option.all_some, decide_eq_false_iff_not] at due
        exact ⟨last, rfl, Nat.lt_of_not_le due⟩

/-- Where no browse is due, more than the second until the next tick is left of a route. -/
theorem outlasts {now browsed interval expiry : Nat} (enough : browsed + fromSecs 30 ≤ expiry)
    (before : browsed ≤ now) (recent : now - browsed < interval)
    (half : interval ≤ max ((expiry - now) / 2) (fromSecs 10)) : now + fromSecs 1 < expiry := by
  unfold fromSecs at enough half ⊢
  omega

theorem not_removed {effects : List Effect}
    (none : .removeFibEntry front face ∉ fibCalls effects) :
    .removeFibEntry front face ∉ effects :=
  fun removed => none (mem_filter.mpr ⟨removed, rfl⟩)

variable {live : Live}

theorem tick_step {ctx : Context} {now : Nanos} (lasting : Lasting front face live)
    (neighbor : ctx.neighbor provider = some ⟨provider, [face], true⟩)
    (after : live.lastTick ≤ now) (soon : now ≤ live.lastTick + fromSecs 1)
    (answered : live.owed = false) :
    .removeFibEntry front face ∉
        (call texts root peersPrefix config live.sd (.tick ctx now)).2 ∧
      Lasting front face
        (Live.step texts root peersPrefix config front provider face live (.tick ctx now)) := by
  refine ⟨not_removed ?_, ?_, ?_⟩
  · intro removed
    rw [show fibCalls (call texts root peersPrefix config live.sd (.tick ctx now)).2 = _ from
      fibCalls_tick _ _ _] at removed
    rcases mem_map.mp removed with ⟨e, among, same⟩
    cases same
    rcases mem_filter.mp among with ⟨among, expired⟩
    have lasts := (lasting.routes answered e among rfl rfl).1
    exact absurd (of_decide_eq_true expired) (Nat.not_le.mpr (soon.trans_lt lasts))
  · change ∀ browsed ∈ (onTick root config live.sd ctx now).1.lastBrowse, browsed ≤ now
    rcases @tick_browses root config provider face live.sd ctx now neighbor with
      ⟨_, last⟩ | ⟨last, _⟩
    · rw [last]
      rintro browsed ⟨⟩
      exact Nat.le_refl _
    · rw [last]
      exact fun browsed known => (lasting.browsed browsed known).trans after
  · intro silent e among isFront isFace
    have unsent : browseInterest root face ∉ (onTick root config live.sd ctx now).2 := by
      change (live.owed || (onTick root config live.sd ctx now).2.contains _) = false at silent
      rw [Bool.or_eq_false_iff] at silent
      intro sent
      rw [contains_iff_mem.mpr sent] at silent
      cases silent.2
    rcases @tick_browses root config provider face live.sd ctx now neighbor with
      ⟨sent, _⟩ | ⟨last, browsed, known, recent⟩
    · exact absurd sent unsent
    · have stays : e ∈ live.sd.autoFib.filter fun e => now < e.expiresAt := among
      have half := interval_le stays now
      have before := lasting.browsed browsed known
      rcases lasting.routes answered e (mem_filter.mp stays).1 isFront isFace with
        ⟨_, lasts⟩
      have enough := lasts browsed known
      refine ⟨?_, ?_⟩
      · exact outlasts enough (before.trans after) recent half
      · change ∀ browsed ∈ (onTick root config live.sd ctx now).1.lastBrowse, _
        rw [last]
        exact lasts

/-! ### Packets and faces -/

theorem providerRecord_eq_some {data : RawData} {record : ServiceRecord} :
    providerRecord texts root config front provider data = some record ↔
      filtered texts root config data = some record ∧ record.pair = (front, provider) ∧
        mayPopulate config data record = true := by
  unfold providerRecord
  rw [Option.filter_eq_some_iff, Bool.and_eq_true, decide_eq_true_eq]

/-- Every record that may install the route gives it a lifetime of at least 30 s. -/
theorem lives_long {ctx : Context} {data : RawData} {incoming : FaceId}
    {record : ServiceRecord} (found : filtered texts root config data = some record)
    (long : LongLived texts root config front provider (.inbound ctx (.data data) incoming))
    (renewing : Renewing texts root config front provider face live
      (.inbound ctx (.data data) incoming))
    (populates : mayPopulate config data record = true) (isFront : record.announcedPrefix = front)
    (isFace : fibFace ctx record.nodeName incoming = face) :
    30000 ≤ ttlMs config record.freshnessMs := by
  by_cases own : record.nodeName = provider
  · have pair : record.pair = (front, provider) := Prod.ext isFront own
    exact long (ctx, data) rfl record (providerRecord_eq_some.mpr ⟨found, pair, populates⟩)
  · exact renewing record found own populates isFront isFace

/-- A route that is installed anew lasts. -/
theorem lasts_anew {now : Nanos} {e : AutoFibEntry} {ttl : Nat}
    (browsed : ∀ browsed ∈ live.sd.lastBrowse, browsed ≤ live.lastTick)
    (after : live.lastTick ≤ now) (long : 30000 ≤ ttl)
    (expires : e.expiresAt = now + fromMillis ttl) : LastsOver live e := by
  have least : now + fromSecs 30 ≤ e.expiresAt := by
    rw [expires]
    unfold fromSecs fromMillis
    exact Nat.add_le_add_left (by omega) _
  refine ⟨?_, ?_⟩
  · refine lt_of_lt_of_le ?_ least
    exact Nat.add_lt_add_of_le_of_lt after (by decide)
  · intro last known
    exact (Nat.add_le_add_right ((browsed last known).trans after) _).trans least

/-- After a packet, the routes are old ones while nothing is owed, or last. -/
theorem lasting_heard {after : ServiceDiscovery} {effects added : List Effect}
    {records : List ServiceRecord} {fib : List AutoFibEntry} {asked owed : Bool}
    (heard : Heard live.sd after effects records fib added) (lasting : Lasting front face live)
    (adds : .removeFibEntry front face ∉ added)
    (routes : owed = false → ∀ e ∈ fib, e.front = front → e.faceId = face →
      (live.owed = false ∧ e ∈ live.sd.autoFib) ∨ LastsOver live e) :
    .removeFibEntry front face ∉ effects ∧
      Lasting front face ⟨after, live.lastTick, asked, owed⟩ := by
  refine ⟨not_removed ?_, ?_, ?_⟩
  · rw [heard.calls]
    exact adds
  · rw [heard.lastBrowse]
    exact lasting.browsed
  · intro answered e among isFront isFace
    rw [heard.autoFib] at among
    have lasts : LastsOver live e := by
      rcases routes answered e among isFront isFace with ⟨answered, old⟩ | lasts
      · exact lasting.routes answered e old isFront isFace
      · exact lasts
    refine ⟨lasts.1, ?_⟩
    rw [heard.lastBrowse]
    exact lasts.2

/-- A record that is stale or may not populate the FIB is no answer that renews the route. -/
theorem owed_of_routes_kept {data : RawData} {record : ServiceRecord}
    (found : filtered texts root config data = some record)
    (kept : (mayPopulate config data record && !stale live.sd.peerRecords record) = false)
    (answered : (live.owed && (providerRecord texts root config front provider data).all
      fun r => stale live.sd.peerRecords r) = false) : live.owed = false := by
  cases answer : providerRecord texts root config front provider data with
  | none =>
    rw [answer, Option.all_none, Bool.and_true] at answered
    exact answered
  | some r =>
    rcases providerRecord_eq_some.mp answer with ⟨same, _, populates⟩
    rw [found, Option.some.injEq] at same
    subst same
    rw [populates, Bool.true_and, Bool.not_eq_false'] at kept
    rw [answer, Option.all_some, kept, Bool.and_true] at answered
    exact answered

theorem fibFace_neighbor {ctx : Context}
    (neighbor : ctx.neighbor provider = some ⟨provider, [face], true⟩) (incoming : FaceId) :
    fibFace ctx provider incoming = face := by
  unfold fibFace
  rw [neighbor]
  rfl

theorem data_step {ctx : Context} {data : RawData} {incoming : FaceId}
    (lasting : Lasting front face live)
    (attended : Attended texts root config front provider face live
      (.inbound ctx (.data data) incoming))
    (renewing : Renewing texts root config front provider face live
      (.inbound ctx (.data data) incoming)) :
    .removeFibEntry front face ∉
        (call texts root peersPrefix config live.sd (.inbound ctx (.data data) incoming)).2 ∧
      Lasting front face (Live.step texts root peersPrefix config front provider face live
        (.inbound ctx (.data data) incoming)) := by
  rcases attended with ⟨neighbor, after, ⟨_, _, admitted⟩, long⟩
  unfold Live.step
  cases filter : filtered texts root config data with
  | none =>
    have nothing : taken texts root config live.sd ctx data = none := by
      unfold taken
      rw [filter]
      rfl
    have unanswered : providerRecord texts root config front provider data = none := by
      unfold providerRecord
      rw [filter]
      rfl
    refine lasting_heard (heard_nothing nothing incoming) lasting not_mem_nil ?_
    intro answered e among _ _
    rw [unanswered, Option.all_none, Bool.and_true] at answered
    exact .inl ⟨answered, among⟩
  | some record =>
    have found : taken texts root config live.sd ctx data = some record :=
      Option.filter_eq_some_iff.mpr ⟨filter, admitted (ctx, data) rfl record filter⟩
    have heard := @heard_record texts root peersPrefix config _ _ _ _ found incoming
    unfold routed at heard
    cases kept : mayPopulate config data record && !stale live.sd.peerRecords record with
    | false =>
      rw [kept, if_neg Bool.false_ne_true] at heard
      refine lasting_heard heard lasting not_mem_nil ?_
      exact fun answered e among _ _ => .inl ⟨owed_of_routes_kept filter kept answered, among⟩
    | true =>
      rw [kept, if_pos rfl] at heard
      have populates := (Bool.and_eq_true_iff.mp kept).1
      refine lasting_heard heard lasting ?_ ?_
      · intro removed
        cases mem_singleton.mp removed
      · intro answered e among isFront isFace
        rcases mem_append.mp among with old | new
        · rcases mem_filter.mp old with ⟨old, other⟩
          cases answer : providerRecord texts root config front provider data with
          | none =>
            rw [answer, Option.all_none, Bool.and_true] at answered
            exact .inl ⟨answered, old⟩
          | some r =>
            -- The entry would have made room for the provider's own.
            rcases providerRecord_eq_some.mp answer with ⟨same, pair, _⟩
            rw [filter, Option.some.injEq] at same
            subst same
            have onFace := fibFace_neighbor neighbor incoming
            rw [show provider = record.nodeName from (congrArg Prod.snd pair).symm] at onFace
            have gone : e.front = record.announcedPrefix ∧
                e.faceId = fibFace ctx record.nodeName incoming :=
              ⟨isFront.trans (congrArg Prod.fst pair).symm, isFace.trans onFace.symm⟩
            rw [decide_eq_true gone.1, decide_eq_true gone.2] at other
            cases other
        · rw [mem_singleton] at new
          subst new
          have enough := lives_long filter long renewing populates isFront isFace
          exact .inr (lasts_anew lasting.browsed after enough rfl)

theorem live_step {c : SdCall} (lasting : Lasting front face live)
    (attended : Attended texts root config front provider face live c)
    (renewing : Renewing texts root config front provider face live c) :
    .removeFibEntry front face ∉ (call texts root peersPrefix config live.sd c).2 ∧
      Lasting front face (Live.step texts root peersPrefix config front provider face live c) := by
  cases c with
  | tick ctx now =>
    rcases attended with ⟨neighbor, ⟨after, soon, _⟩, _⟩
    exact tick_step lasting neighbor after soon renewing
  | faceDown ctx down =>
    rcases attended with ⟨_, other, _⟩
    refine ⟨?_, ?_, ?_⟩
    · intro removed
      rcases mem_map.mp removed with ⟨e, among, same⟩
      cases same
      exact other (of_decide_eq_true (mem_filter.mp among).2).symm
    · exact lasting.browsed
    · intro answered e among isFront isFace
      exact lasting.routes answered e (mem_filter.mp among).1 isFront isFace
  | inbound ctx packet incoming =>
    cases packet with
    | data data => exact data_step lasting attended renewing
    | interest name =>
      refine ⟨not_removed ?_, lasting.browsed, lasting.routes⟩
      rw [show fibCalls (call texts root peersPrefix config live.sd
        (.inbound ctx (.interest name) incoming)).2 = [] from fibCalls_interest _ _ _ _]
      exact not_mem_nil

/-- The route to a live provider is never withdrawn where its answers renew it. -/
theorem never_withdrawn (start : Nanos) (calls : List SdCall)
    (attended : Throughout (Live.step texts root peersPrefix config front provider face)
      (Live.start start) calls (Attended texts root config front provider face))
    (renewing : Throughout (Live.step texts root peersPrefix config front provider face)
      (Live.start start) calls (Renewing texts root config front provider face)) :
    Throughout (Live.step texts root peersPrefix config front provider face) (Live.start start)
      calls fun live c => .removeFibEntry front face ∉
        (call texts root peersPrefix config live.sd c).2 := by
  suffices ∀ live, Lasting front face live →
      Throughout (Live.step texts root peersPrefix config front provider face) live calls
        (Attended texts root config front provider face) →
      Throughout (Live.step texts root peersPrefix config front provider face) live calls
        (Renewing texts root config front provider face) →
      Throughout (Live.step texts root peersPrefix config front provider face) live calls
        fun live c => .removeFibEntry front face ∉
          (call texts root peersPrefix config live.sd c).2 from
    this _ (lasting_start start) attended renewing
  clear attended renewing
  induction calls with
  | nil => exact fun live _ _ _ => throughout_nil live _
  | cons c rest ih =>
    intro live lasting attended renewing
    rw [throughout_cons] at attended renewing ⊢
    rcases live_step lasting attended.1 renewing.1 with ⟨stays, next⟩
    exact ⟨stays, ih _ next attended.2 renewing.2⟩

/-! ### Half a minute of ticks -/

namespace Renewed

open Sample

def ctx (now : Nanos) : Context := ⟨now, [⟨.single 110, [⟨1⟩], true⟩]⟩

/-- A tick each second, and an answer half a second after some. -/
def calls (answered : List Nat) (version : Nat → Nat) : List SdCall :=
  (List.range 32).flatMap fun second =>
    .tick (ctx (fromSecs second)) (fromSecs second) ::
      if second ∈ answered then
        [.inbound (ctx (fromSecs second + fromMillis 500)) (.data (data (version second) [1])) ⟨1⟩]
      else []

/-- Published again before each answer, the record keeps its route. -/
theorem kept_while_republished :
    Throughout (Live.step letters sdRoot (.single 112) signedOnly service (.single 110) ⟨1⟩)
      (Live.start 0) (calls [0, 11, 22] fun second => second + 1) fun live c =>
        .removeFibEntry service ⟨1⟩ ∉
          (call letters sdRoot (.single 112) signedOnly live.sd c).2 :=
  never_withdrawn 0 (calls [0, 11, 22] fun second => second + 1) (by decide +kernel)
    (by decide +kernel)

/-- Published once, the record is answered with again and again, and the route goes. -/
theorem withdrawn_once_published :
    Throughout (Live.step letters sdRoot (.single 112) signedOnly service (.single 110) ⟨1⟩)
      (Live.start 0) (calls [0, 11, 21] fun _ => 5)
      (Attended letters sdRoot signedOnly service (.single 110) ⟨1⟩) ∧
    ¬ Throughout (Live.step letters sdRoot (.single 112) signedOnly service (.single 110) ⟨1⟩)
      (Live.start 0) (calls [0, 11, 21] fun _ => 5) fun live c =>
        .removeFibEntry service ⟨1⟩ ∉
          (call letters sdRoot (.single 112) signedOnly live.sd c).2 := by
  decide +kernel

end Renewed

end ServiceDiscovery

end NdnExt.Discovery
