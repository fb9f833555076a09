import Mathlib.Data.List.Perm.Basic
import NdnExt.Lib.HashMap
import NdnExt.Lib.Run
import NdnExt.Packet.Name

/-! The places of the links a relay serves for namespaces other than its own. -/

namespace NdnExt.Link

open NdnExt.Lib NdnExt.Lib.Run

structure KeyFingerprint where
  bytes : Vector UInt8 32
  deriving DecidableEq

structure RateLimit where
  burst : UInt32
  perSec : UInt32
  deriving DecidableEq

/-- A rate bucket that links share, told from the others by the order of their allocation. -/
structure SharedRate where
  allocation : Nat
  rate : RateLimit
  deriving DecidableEq

structure Quotas where
  linksTotal : Nat
  linksPerNamespace : Nat
  interestsPerKey : RateLimit
  interestsPerNamespace : RateLimit

structure RootLive where
  links : Nat
  rate : Option SharedRate

/-- The links served now; no two rates are allocated under one number. -/
structure Live where
  total : Nat
  roots : HashMap KeyFingerprint RootLive
  names : HashMap Name (KeyFingerprint × Nat)
  nextAllocation : Nat

structure QuotaSlot where
  ns : Name
  root : KeyFingerprint
  limits : Option (RateLimit × SharedRate)

inductive QuotaRefusal where
  | namespaceCollides (ns : Name) (bound root : KeyFingerprint)
  | quotaNamespaceLinks (max : Nat) (ns : Name) (links : Nat)
  | quotaLinks (max links : Nat)
  deriving DecidableEq

namespace Live

def empty : Live := ⟨0, ∅, ∅, 0⟩

def rootLinks (live : Live) (root : KeyFingerprint) : Nat :=
  ((live.roots.lookup root).map RootLive.links).getD 0

/-- Why no slot is granted. -/
def refuses (live : Live) (ns : Name) (root : KeyFingerprint) (quotas : Option Quotas) :
    Option QuotaRefusal :=
  match (live.names.lookup ns).filter fun bound => bound.1 ≠ root with
  | some (bound, _) => some (.namespaceCollides ns bound root)
  | none =>
    match quotas with
    | none => none
    | some q =>
      if live.rootLinks root ≥ q.linksPerNamespace then
        some (.quotaNamespaceLinks q.linksPerNamespace ns (live.rootLinks root))
      else if live.total ≥ q.linksTotal then some (.quotaLinks q.linksTotal live.total)
      else none

/-- The entry of a root, made under the quotas of the first slot. -/
def rootEntry (live : Live) (root : KeyFingerprint) (quotas : Option Quotas) : RootLive :=
  (live.roots.lookup root).getD
    ⟨0, quotas.map fun q => ⟨live.nextAllocation, q.interestsPerNamespace⟩⟩

def grant (live : Live) (ns : Name) (root : KeyFingerprint) (quotas : Option Quotas) :
    Live × QuotaSlot :=
  let entry := live.rootEntry root quotas
  let bound := (live.names.lookup ns).getD (root, 0)
  ({ total := live.total + 1
     roots := live.roots.insert root { entry with links := entry.links + 1 }
     names := live.names.insert ns (bound.1, bound.2 + 1)
     nextAllocation := live.nextAllocation + 1 },
   { ns := ns
     root := root
     limits := match quotas, entry.rate with
       | some q, some rate => some (q.interestsPerKey, rate)
       | _, _ => none })

def take (live : Live) (ns : Name) (root : KeyFingerprint) (quotas : Option Quotas) :
    Except QuotaRefusal (Live × QuotaSlot) :=
  match live.refuses ns root quotas with
  | some refusal => .error refusal
  | none => .ok (live.grant ns root quotas)

/-- A slot is dropped. -/
def drop (live : Live) (slot : QuotaSlot) : Live where
  total := live.total - 1
  roots := match live.roots.lookup slot.root with
    | none => live.roots
    | some root =>
      if root.links - 1 = 0 then live.roots.erase slot.root
      else live.roots.insert slot.root { root with links := root.links - 1 }
  names := match live.names.lookup slot.ns with
    | none => live.names
    | some (root, links) =>
      if links - 1 = 0 then live.names.erase slot.ns
      else live.names.insert slot.ns (root, links - 1)
  nextAllocation := live.nextAllocation

end Live

/-- The relay and the slots it granted that are not dropped yet. -/
structure Granting where
  live : Live
  slots : List QuotaSlot

inductive QuotaAction where
  | take (ns : Name) (root : KeyFingerprint) (quotas : Option Quotas)
  | drop (i : Nat)

namespace Granting

def start : Granting := ⟨.empty, []⟩

def step (g : Granting) : QuotaAction → Granting
  | .take ns root quotas =>
    match g.live.take ns root quotas with
    | .ok (live, slot) => ⟨live, g.slots ++ [slot]⟩
    | .error _ => g
  | .drop i =>
    match g.slots[i]? with
    | some slot => ⟨g.live.drop slot, g.slots.eraseIdx i⟩
    | none => g

def ofRoot (g : Granting) (root : KeyFingerprint) : Nat :=
  g.slots.countP fun slot => slot.root = root

def ofName (g : Granting) (ns : Name) : Nat := g.slots.countP fun slot => slot.ns = ns

/-- The counts are those of the slots, and slots with limits share their root's rate. -/
structure Exact (g : Granting) : Prop where
  total : g.live.total = g.slots.length
  roots : ∀ root, (g.live.roots.lookup root).map RootLive.links =
    if g.ofRoot root = 0 then none else some (g.ofRoot root)
  names : ∀ ns, (g.live.names.lookup ns).map Prod.snd =
    if g.ofName ns = 0 then none else some (g.ofName ns)
  bound : ∀ slot ∈ g.slots, (g.live.names.lookup slot.ns).map Prod.fst = some slot.root
  rates : ∀ slot ∈ g.slots, ∀ limit rate, slot.limits = some (limit, rate) →
    (g.live.roots.lookup slot.root).bind RootLive.rate = some rate

/-- What a take is to do: a slot under quotas keeps to them and is limited, and a refusal changes
nothing. -/
def TakesExactly (g : Granting) : QuotaAction → Prop
  | .drop _ => True
  | .take ns root quotas =>
    match g.live.take ns root quotas with
    | .error _ => g.step (.take ns root quotas) = g
    | .ok (_, slot) => ∀ q, quotas = some q →
      (g.step (.take ns root quotas)).ofRoot root ≤ q.linksPerNamespace ∧
        (g.step (.take ns root quotas)).slots.length ≤ q.linksTotal ∧
          ∃ rate, slot.limits = some (q.interestsPerKey, rate)

/-- There is a place for a slot under `q`. -/
def HasPlace (g : Granting) (ns : Name) (root : KeyFingerprint) (q : Quotas) : Prop :=
  (∀ slot ∈ g.slots, slot.ns = ns → slot.root = root) ∧ g.ofRoot root < q.linksPerNamespace ∧
    g.slots.length < q.linksTotal

/-- A root that gets a slot under quotas has none yet, or has a rate. -/
def Limited (g : Granting) : QuotaAction → Prop
  | .drop _ => True
  | .take _ _ none => True
  | .take ns root (some q) => g.HasPlace ns root q →
    ∀ entry, g.live.roots.lookup root = some entry → entry.rate ≠ none

/-! ### Steps -/

variable {g : Granting} {ns : Name} {root : KeyFingerprint} {quotas : Option Quotas}

theorem Exact.rootLinks (exact : Exact g) (root : KeyFingerprint) :
    g.live.rootLinks root = g.ofRoot root := by
  rw [Live.rootLinks, exact.roots]
  split
  · next none => rw [none]; rfl
  · rfl

theorem Exact.unbound (exact : Exact g) :
    ((g.live.names.lookup ns).filter fun bound => bound.1 ≠ root) = none ↔
      ∀ slot ∈ g.slots, slot.ns = ns → slot.root = root := by
  constructor
  · intro none slot found same
    have bound := exact.bound slot found
    rw [same] at bound
    rcases Option.map_eq_some_iff.mp bound with ⟨entry, held, root'⟩
    rw [held, Option.filter_some] at none
    by_contra differs
    rw [root'] at none
    simp [differs] at none
  · intro all
    cases held : g.live.names.lookup ns with
    | none => rfl
    | some entry =>
      have counted := exact.names ns
      rw [held, Option.map_some] at counted
      have some : g.ofName ns ≠ 0 := by
        intro zero
        rw [if_pos zero] at counted
        cases counted
      rcases List.countP_pos_iff.mp (Nat.pos_of_ne_zero some) with ⟨slot, found, same⟩
      have is : slot.ns = ns := of_decide_eq_true same
      have bound := exact.bound slot found
      rw [is, held, Option.map_some, Option.some.injEq] at bound
      rw [Option.filter_some, bound, all slot found is]
      simp

theorem Exact.refuses_none (exact : Exact g) (q : Quotas) :
    g.live.refuses ns root (some q) = none ↔ g.HasPlace ns root q := by
  rw [Live.refuses, HasPlace, ← exact.unbound, ← exact.rootLinks, ← exact.total]
  cases (g.live.names.lookup ns).filter fun bound => bound.1 ≠ root with
  | some bound => simp
  | none =>
    simp only [true_and]
    split
    · next full => simp; omega
    · next room =>
      split
      · next full => simp; omega
      · next space => simp; omega

/-- What a grant adds to the slots. -/
theorem ofRoot_granted (g : Granting) (live : Live) (slot : QuotaSlot) (root : KeyFingerprint) :
    ofRoot ⟨live, g.slots ++ [slot]⟩ root = g.ofRoot root + if slot.root = root then 1 else 0 := by
  simp [ofRoot, List.countP_append, List.countP_cons]

theorem ofName_granted (g : Granting) (live : Live) (slot : QuotaSlot) (ns : Name) :
    ofName ⟨live, g.slots ++ [slot]⟩ ns = g.ofName ns + if slot.ns = ns then 1 else 0 := by
  simp [ofName, List.countP_append, List.countP_cons]

theorem Exact.grant (exact : Exact g) (allowed : g.live.refuses ns root quotas = none) :
    Exact ⟨(g.live.grant ns root quotas).1, g.slots ++ [(g.live.grant ns root quotas).2]⟩ := by
  have unbound : ((g.live.names.lookup ns).filter fun bound => bound.1 ≠ root) = none := by
    simp only [Live.refuses] at allowed
    split at allowed
    · cases allowed
    · assumption
  have entryLinks : (g.live.rootEntry root quotas).links = g.ofRoot root := by
    rw [← exact.rootLinks, Live.rootEntry, Live.rootLinks]
    cases g.live.roots.lookup root <;> rfl
  have nameBound : ((g.live.names.lookup ns).getD (root, 0)).1 = root := by
    cases held : g.live.names.lookup ns with
    | none => rfl
    | some entry =>
      rw [held] at unbound
      simpa using unbound
  have nameLinks : ((g.live.names.lookup ns).getD (root, 0)).2 = g.ofName ns := by
    have counted := exact.names ns
    cases held : g.live.names.lookup ns with
    | none =>
      rw [held, Option.map_none] at counted
      split at counted
      · next zero => exact zero.symm
      · cases counted
    | some entry =>
      rw [held, Option.map_some] at counted
      split at counted
      · cases counted
      · exact Option.some.inj counted
  refine ⟨?_, ?_, ?_, ?_, ?_⟩
  · simp [Live.grant, exact.total]
  · intro other
    rw [ofRoot_granted, show (g.live.grant ns root quotas).2.root = root from rfl]
    simp only [Live.grant, HashMap.lookup_insert_eq]
    by_cases same : other = root
    · subst same
      simp [entryLinks]
    · rw [if_neg same, exact.roots other, if_neg (Ne.symm same), Nat.add_zero]
  · intro other
    rw [ofName_granted, show (g.live.grant ns root quotas).2.ns = ns from rfl]
    simp only [Live.grant, HashMap.lookup_insert_eq]
    by_cases same : other = ns
    · subst same
      simp [nameLinks]
    · rw [if_neg same, exact.names other, if_neg (Ne.symm same), Nat.add_zero]
  · intro slot found
    simp only [Live.grant, HashMap.lookup_insert_eq] at found ⊢
    rcases List.mem_append.mp found with earlier | new
    · by_cases same : slot.ns = ns
      · rw [if_pos same, Option.map_some, nameBound]
        exact congrArg some (exact.unbound.mp unbound slot earlier same).symm
      · rw [if_neg same]
        exact exact.bound slot earlier
    · rw [List.mem_singleton.mp new, if_pos rfl, Option.map_some, nameBound]
  · intro slot found limit rate limited
    simp only [Live.grant, HashMap.lookup_insert_eq] at found ⊢
    rcases List.mem_append.mp found with earlier | new
    · have known := exact.rates slot earlier limit rate limited
      by_cases same : slot.root = root
      · rw [if_pos same, Option.bind_some]
        rw [same] at known
        rcases Option.bind_eq_some_iff.mp known with ⟨entry, held, is⟩
        rw [Live.rootEntry, held]
        exact is
      · rw [if_neg same]
        exact known
    · rw [List.mem_singleton.mp new] at limited ⊢
      rw [if_pos rfl, Option.bind_some]
      split at limited
      · next is =>
        cases limited
        exact is
      · cases limited

theorem Exact.drop (exact : Exact g) {i : Nat} {slot : QuotaSlot} (held : g.slots[i]? = some slot) :
    Exact ⟨g.live.drop slot, g.slots.eraseIdx i⟩ := by
  rcases List.getElem?_eq_some_iff.mp held with ⟨bound, is⟩
  have split : (slot :: g.slots.eraseIdx i).Perm g.slots := by
    rw [← is]
    exact List.getElem_cons_eraseIdx_perm bound
  have rootCount : ∀ root, g.ofRoot root =
      ofRoot ⟨g.live.drop slot, g.slots.eraseIdx i⟩ root + if slot.root = root then 1 else 0 := by
    intro root
    rw [ofRoot, ← split.countP_eq, List.countP_cons]
    simp [ofRoot]
  have nameCount : ∀ ns, g.ofName ns =
      ofName ⟨g.live.drop slot, g.slots.eraseIdx i⟩ ns + if slot.ns = ns then 1 else 0 := by
    intro ns
    rw [ofName, ← split.countP_eq, List.countP_cons]
    simp [ofName]
  have still : ∀ other ∈ g.slots.eraseIdx i, other ∈ g.slots := by
    intro other found
    exact split.subset (List.mem_cons_of_mem slot found)
  have roots : ∀ root, (g.live.drop slot).roots.lookup root =
      if root = slot.root then
        ((g.live.roots.lookup slot.root).bind fun entry =>
          if entry.links - 1 = 0 then none else some { entry with links := entry.links - 1 })
      else g.live.roots.lookup root := by
    intro root
    cases entry : g.live.roots.lookup slot.root with
    | none =>
      simp only [Live.drop, entry]
      split
      · next same => rw [same, entry]; rfl
      · rfl
    | some entry' =>
      simp only [Live.drop, entry, Option.bind_some]
      split
      · next zero => rw [HashMap.lookup_erase_eq]
      · next more => rw [HashMap.lookup_insert_eq]
  have names : ∀ ns, (g.live.drop slot).names.lookup ns =
      if ns = slot.ns then
        ((g.live.names.lookup slot.ns).bind fun entry =>
          if entry.2 - 1 = 0 then none else some (entry.1, entry.2 - 1))
      else g.live.names.lookup ns := by
    intro ns
    cases entry : g.live.names.lookup slot.ns with
    | none =>
      simp only [Live.drop, entry]
      split
      · next same => rw [same, entry]; rfl
      · rfl
    | some entry' =>
      rcases entry' with ⟨root, links⟩
      simp only [Live.drop, entry, Option.bind_some]
      split
      · next zero => rw [HashMap.lookup_erase_eq]
      · next more => rw [HashMap.lookup_insert_eq]
  refine ⟨?_, ?_, ?_, ?_, ?_⟩
  · have all := split.length_eq
    rw [List.length_cons] at all
    simp only [Live.drop]
    rw [exact.total]
    omega
  · intro root
    have counted := rootCount root
    have before := exact.roots root
    rw [roots]
    by_cases same : root = slot.root
    · rw [if_pos same.symm] at counted
      rw [if_pos same, ← same]
      cases entry : g.live.roots.lookup root with
      | none =>
        rw [entry, Option.map_none, if_neg (by omega)] at before
        cases before
      | some entry' =>
        rw [entry, Option.map_some, if_neg (by omega), Option.some.injEq] at before
        rw [Option.bind_some]
        split
        · next zero => rw [if_pos (by omega)]; rfl
        · next more =>
          rw [if_neg (by omega), Option.map_some, Option.some.injEq]
          dsimp only
          omega
    · rw [if_neg (Ne.symm same), Nat.add_zero] at counted
      rw [if_neg same, ← counted]
      exact before
  · intro ns
    have counted := nameCount ns
    have before := exact.names ns
    rw [names]
    by_cases same : ns = slot.ns
    · rw [if_pos same.symm] at counted
      rw [if_pos same, ← same]
      cases entry : g.live.names.lookup ns with
      | none =>
        rw [entry, Option.map_none, if_neg (by omega)] at before
        cases before
      | some entry' =>
        rw [entry, Option.map_some, if_neg (by omega), Option.some.injEq] at before
        rw [Option.bind_some]
        split
        · next zero => rw [if_pos (by omega)]; rfl
        · next more =>
          rw [if_neg (by omega), Option.map_some]
          exact congrArg some (by omega)
    · rw [if_neg (Ne.symm same), Nat.add_zero] at counted
      rw [if_neg same, ← counted]
      exact before
  · intro other found
    have before := exact.bound other (still other found)
    have some : 0 < ofName ⟨g.live.drop slot, g.slots.eraseIdx i⟩ other.ns :=
      List.countP_pos_iff.mpr ⟨other, found, decide_eq_true rfl⟩
    have counted := nameCount other.ns
    have links := exact.names other.ns
    rw [names]
    by_cases same : other.ns = slot.ns
    · rw [if_pos same, ← same]
      rw [if_pos same.symm] at counted
      rcases Option.map_eq_some_iff.mp before with ⟨entry, held', root⟩
      rw [held', Option.map_some, if_neg (by omega), Option.some.injEq] at links
      rw [held', Option.bind_some, if_neg (by omega), Option.map_some, root]
    · rw [if_neg same]
      exact before
  · intro other found limit rate limited
    have before := exact.rates other (still other found) limit rate limited
    have some : 0 < ofRoot ⟨g.live.drop slot, g.slots.eraseIdx i⟩ other.root :=
      List.countP_pos_iff.mpr ⟨other, found, decide_eq_true rfl⟩
    have counted := rootCount other.root
    have links := exact.roots other.root
    rw [roots]
    by_cases same : other.root = slot.root
    · rw [if_pos same, ← same]
      rw [if_pos same.symm] at counted
      rcases Option.bind_eq_some_iff.mp before with ⟨entry, held', is⟩
      rw [held', Option.map_some, if_neg (by omega), Option.some.injEq] at links
      rw [held', Option.bind_some, if_neg (by omega), Option.bind_some]
      exact is
    · rw [if_neg same]
      exact before

/-! ### Runs -/

theorem exact_start : Exact start :=
  ⟨rfl, fun _ => rfl, fun _ => rfl, fun _ found => absurd found List.not_mem_nil,
    fun _ found => absurd found List.not_mem_nil⟩

theorem step_take (g : Granting) (ns : Name) (root : KeyFingerprint) (quotas : Option Quotas) :
    g.step (.take ns root quotas) =
      if g.live.refuses ns root quotas = none then
        ⟨(g.live.grant ns root quotas).1, g.slots ++ [(g.live.grant ns root quotas).2]⟩
      else g := by
  rw [step, Live.take]
  cases g.live.refuses ns root quotas with
  | none => simp
  | some refusal => simp

theorem Exact.step (exact : Exact g) (action : QuotaAction) : Exact (g.step action) := by
  cases action with
  | take ns root quotas =>
    rw [step_take]
    split
    · next allowed => exact exact.grant allowed
    · exact exact
  | drop i =>
    rw [Granting.step]
    split
    · next slot held => exact exact.drop held
    · exact exact

theorem exact_run (actions : List QuotaAction) : Exact (actions.foldl step start) := by
  have all : ∀ g : Granting, Exact g → Exact (actions.foldl Granting.step g) := by
    induction actions with
    | nil => exact fun _ exact => exact
    | cons action actions ih => exact fun g exact => ih _ (exact.step action)
  exact all start exact_start

/-- A take does what it is to do where its root, under quotas, is limited. -/
theorem Exact.takesExactly_iff (exact : Exact g) (action : QuotaAction) :
    g.TakesExactly action ↔ g.Limited action := by
  cases action with
  | drop i => exact Iff.rfl
  | take ns root quotas =>
    rw [TakesExactly, Live.take, step_take]
    cases refused : g.live.refuses ns root quotas with
    | some refusal =>
      refine iff_of_true (by simp) ?_
      cases quotas with
      | none => trivial
      | some q =>
        intro place
        rw [(exact.refuses_none q).mpr place] at refused
        cases refused
    | none =>
      cases quotas with
      | none => exact iff_of_true nofun trivial
      | some q =>
        have place := (exact.refuses_none q).mp refused
        have counted := ofRoot_granted g (g.live.grant ns root (some q)).1
          (g.live.grant ns root (some q)).2 root
        rw [show (g.live.grant ns root (some q)).2.root = root from rfl, if_pos rfl] at counted
        simp only [if_true, Option.some.injEq, Limited]
        constructor
        · intro all _ entry held rateless
          rcases (all q rfl).2.2 with ⟨rate, limited⟩
          have unlimited : (g.live.grant ns root (some q)).2.limits = none := by
            simp [Live.grant, Live.rootEntry, held, rateless]
          rw [unlimited] at limited
          cases limited
        · rintro limited q' rfl
          refine ⟨?_, ?_, ?_⟩
          · rw [counted]
            exact place.2.1
          · rw [List.length_append]
            exact place.2.2
          · simp only [Live.grant, Live.rootEntry]
            cases held : g.live.roots.lookup root with
            | none => exact ⟨_, rfl⟩
            | some entry =>
              rcases Option.ne_none_iff_exists'.mp (limited place entry held)
                with ⟨rate, is⟩
              simp only [Option.getD_some, is]
              exact ⟨rate, rfl⟩

/-- The counts are exact in every state, and every take does what it is to do. -/
structure QuotasExact (actions : List QuotaAction) : Prop where
  states : ∀ earlier later, actions = earlier ++ later → Exact (earlier.foldl step start)
  takes : Throughout step start actions TakesExactly

theorem quotas_exact_iff (actions : List QuotaAction) :
    QuotasExact actions ↔ Throughout step start actions Limited := by
  have same : Throughout step start actions TakesExactly ↔
      Throughout step start actions Limited := by
    constructor
    · intro all earlier action later split
      exact ((exact_run earlier).takesExactly_iff action).mp (all earlier action later split)
    · intro all earlier action later split
      exact ((exact_run earlier).takesExactly_iff action).mpr (all earlier action later split)
  constructor
  · exact fun exact => same.mp exact.takes
  · exact fun limited => ⟨fun earlier _ _ => exact_run earlier, same.mpr limited⟩

/-- A root that is first served without quotas gives its next slot no limits. -/
theorem first_unlimited_slot_spoils_the_rest :
    ¬ QuotasExact [.take (.single 1) ⟨.replicate 32 0⟩ none,
      .take (.single 1) ⟨.replicate 32 0⟩ (some ⟨256, 32, ⟨200, 100⟩, ⟨800, 400⟩⟩)] := by
  intro exact
  have takes := exact.takes [.take (.single 1) ⟨.replicate 32 0⟩ none] _ [] rfl
  rw [(exact_run _).takesExactly_iff] at takes
  exact takes ⟨by decide, by decide, by decide⟩ ⟨1, none⟩ rfl rfl

end Granting

/-! ### The enrollment links that a relay holds -/

def enrollmentLinksMax : Nat := 32

def enrollmentLinksPerSource : Nat := 4

/-- A refusal as `Busy` with `ENROLLMENT_LINKS_FULL`. -/
structure LinksFull where
  links : Nat
  fromSource : Nat
  deriving DecidableEq

def LinksFull.text (full : LinksFull) : String :=
  "this relay holds " ++ toString full.links ++ " enrollment links (" ++
    toString full.fromSource ++ " from your address; it takes " ++ toString enrollmentLinksMax ++
    ", " ++ toString enrollmentLinksPerSource ++
    " from one address); your device dials again by itself — or enroll it over another path"

structure Counts (A : Type) where
  total : Nat
  bySource : HashMap A Nat

/-- A relay's counts, and the sources of the slots that are not dropped yet. -/
structure Enrolling (A : Type) where
  counts : Counts A
  held : List A

inductive SlotAction (A : Type) where
  | link (source : A)
  | ended (source : A)

variable {A : Type} [DecidableEq A]

namespace Counts

def fromSource (counts : Counts A) (source : A) : Nat := (counts.bySource.lookup source).getD 0

def reserve (counts : Counts A) (source : A) : Except LinksFull (Counts A) :=
  if counts.total ≥ enrollmentLinksMax ∨ counts.fromSource source ≥ enrollmentLinksPerSource then
    .error ⟨counts.total, counts.fromSource source⟩
  else
    .ok ⟨counts.total + 1, counts.bySource.insert source (counts.fromSource source + 1)⟩

/-- A slot is dropped. -/
def giveBack (counts : Counts A) (source : A) : Counts A :=
  { total := counts.total - 1
    bySource := match counts.bySource.lookup source with
      | some n =>
        if n - 1 = 0 then counts.bySource.erase source else counts.bySource.insert source (n - 1)
      | none => counts.bySource }

/-- The counts are those of `held`; what is not held has no entry. -/
structure Exact (counts : Counts A) (held : List A) : Prop where
  total : counts.total = held.length
  bySource : ∀ source, counts.bySource.lookup source =
    if held.count source = 0 then none else some (held.count source)

variable {counts counts' : Counts A} {held : List A}

theorem Exact.fromSource (exact' : counts.Exact held) (source : A) :
    counts.fromSource source = held.count source := by
  rw [Counts.fromSource, exact'.bySource]
  split
  · next none => rw [none]; rfl
  · rfl

theorem Exact.reserve (exact' : counts.Exact held) {source : A}
    (taken : counts.reserve source = .ok counts') :
    counts'.Exact (source :: held) ∧ held.length < enrollmentLinksMax ∧
      held.count source < enrollmentLinksPerSource := by
  rw [Counts.reserve] at taken
  split at taken
  · cases taken
  · next free =>
    cases taken
    rw [not_or, not_le, not_le, exact'.total, exact'.fromSource] at free
    refine ⟨⟨?_, ?_⟩, free⟩
    · rw [exact'.total, List.length_cons]
    · intro other
      rw [HashMap.lookup_insert_eq, exact'.fromSource, exact'.bySource, List.count_cons]
      by_cases same : other = source
      · subst same
        simp
      · simp [same, Ne.symm same]

theorem Exact.giveBack (exact' : counts.Exact held) {source : A} (among : source ∈ held) :
    (counts.giveBack source).Exact (held.erase source) := by
  have positive := List.count_pos_iff.mpr among
  refine ⟨?_, ?_⟩
  · rw [Counts.giveBack, exact'.total, List.length_erase_of_mem among]
  · intro other
    have entry : counts.bySource.lookup source = some (held.count source) := by
      rw [exact'.bySource, if_neg (by omega)]
    rw [Counts.giveBack, entry]
    dsimp only
    by_cases same : other = source
    · subst same
      rw [List.count_erase_self]
      split
      · next last => rw [HashMap.lookup_erase_eq, if_pos rfl]
      · next more => rw [HashMap.lookup_insert_eq, if_pos rfl]
    · rw [List.count_erase_of_ne same]
      split
      · rw [HashMap.lookup_erase_eq, if_neg same, exact'.bySource]
      · rw [HashMap.lookup_insert_eq, if_neg same, exact'.bySource]

end Counts

namespace Enrolling

def start : Enrolling A := ⟨⟨0, ∅⟩, []⟩

/-- An enrollment link comes in, or one that is held ends. -/
def step (relay : Enrolling A) : SlotAction A → Enrolling A
  | .link source =>
    match relay.counts.reserve source with
    | .ok counts => ⟨counts, source :: relay.held⟩
    | .error _ => relay
  | .ended source =>
    if source ∈ relay.held then ⟨relay.counts.giveBack source, relay.held.erase source⟩ else relay

structure Sound (relay : Enrolling A) : Prop where
  counts : relay.counts.Exact relay.held
  total : relay.held.length ≤ enrollmentLinksMax
  bySource : ∀ source, relay.held.count source ≤ enrollmentLinksPerSource

theorem Sound.step {relay : Enrolling A} (sound : relay.Sound) (action : SlotAction A) :
    (relay.step action).Sound := by
  cases action with
  | link source =>
    rw [Enrolling.step]
    cases taken : relay.counts.reserve source with
    | error full => exact sound
    | ok counts =>
      rcases sound.counts.reserve taken with ⟨exact', total, bySource⟩
      refine ⟨exact', total, ?_⟩
      intro other
      rw [List.count_cons]
      have known := sound.bySource other
      split
      · next same =>
        rw [eq_of_beq same] at bySource
        exact bySource
      · exact known
  | ended source =>
    rw [Enrolling.step]
    split
    · next among =>
      refine ⟨sound.counts.giveBack among, List.length_erase_le.trans sound.total, ?_⟩
      intro other
      exact (List.erase_sublist.count_le other).trans (sound.bySource other)
    · exact sound

/-- In every run of links that come in and end, a relay counts exactly the enrollment links it
holds, within both bounds, and takes a further one whenever neither bound is reached. -/
theorem slots_exact (actions : List (SlotAction A)) (source : A) :
    let relay := actions.foldl Enrolling.step Enrolling.start
    (relay.counts.total = relay.held.length ∧
      relay.counts.fromSource source = relay.held.count source) ∧
    (relay.held.length ≤ enrollmentLinksMax ∧
      relay.held.count source ≤ enrollmentLinksPerSource) ∧
    relay.counts.reserve source =
      if relay.held.length < enrollmentLinksMax ∧
          relay.held.count source < enrollmentLinksPerSource then
        .ok ⟨relay.held.length + 1,
          relay.counts.bySource.insert source (relay.held.count source + 1)⟩
      else .error ⟨relay.held.length, relay.held.count source⟩ := by
  intro relay
  have sound : relay.Sound := by
    refine List.foldlRecOn actions Enrolling.step ?_ fun relay sound action _ => sound.step action
    exact ⟨⟨rfl, fun source => by rfl⟩, Nat.zero_le _, fun source => by simp [start]⟩
  have fromSource := sound.counts.fromSource source
  refine ⟨⟨sound.counts.total, fromSource⟩, ⟨sound.total, sound.bySource source⟩, ?_⟩
  rw [Counts.reserve, sound.counts.total, fromSource]
  by_cases free : relay.held.length < enrollmentLinksMax ∧
      relay.held.count source < enrollmentLinksPerSource
  · rw [if_pos free, if_neg (by omega)]
  · rw [if_neg free, if_pos (by omega)]

end Enrolling

end NdnExt.Link
