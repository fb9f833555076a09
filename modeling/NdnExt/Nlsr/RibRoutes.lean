import NdnExt.Dv.Mirror
import NdnExt.Nlsr.NamePrefixTable
import Mathlib.Data.Finset.Card

/-! How the routes of NLSR in the engine RIB follow the name prefix table. -/

namespace NdnExt.Nlsr

open NdnExt.Lib List
open NdnExt.Dv (EngineRib RibRoute)

structure FaceInfo where
  id : Nat
  remoteUri : Option String
  deriving DecidableEq

structure FaceTable where
  faceInfo : List FaceInfo
  distinct : (faceInfo.map (·.id)).Nodup

def FaceTable.findFaceIdByUri (faces : FaceTable) (uri : String) : Option Nat :=
  (faces.faceInfo.find? (fun info => info.remoteUri = some uri)).map (·.id)

/-- `cost as u32`: the integer part, saturated. -/
def costAsU32 (cost : ℚ) : Nat := min cost.floor.toNat u32Max

def NamePrefixTable.snapshot (npt : NamePrefixTable) : List (Name × List NextHop) :=
  npt.entries.keys.map (fun prefixName => (prefixName, npt.nexthopsForPrefix prefixName))

def keptHops (maxFaces : Nat) (nexthops : List NextHop) : List NextHop :=
  if maxFaces > 0 ∧ nexthops.length > maxFaces then nexthops.take maxFaces else nexthops

/-- The engine RIB and the prefixes and URIs that the last call returned. -/
structure NlsrRib (R : Type) where
  rib : R
  installed : HashMap (Name × String) Unit

section Apply

variable {R : Type} (engine : EngineRib R) (faces : FaceTable)
  (nlsrOrigin childInherit maxFaces : Nat)

def nlsrRoute (face cost : Nat) : RibRoute :=
  { faceId := face, origin := nlsrOrigin, cost := cost, flags := childInherit, expiresAt := none }

def addHop (prefixName : Name) (state : NlsrRib R) (nh : NextHop) : NlsrRib R :=
  let installed := state.installed.insert (prefixName, nh.faceUri) ()
  match faces.findFaceIdByUri nh.faceUri with
  | none => { state with installed := installed }
  | some face =>
    { rib := engine.add state.rib prefixName
        (nlsrRoute nlsrOrigin childInherit face (costAsU32 nh.cost))
      installed := installed }

def addEntry (state : NlsrRib R) (entry : Name × List NextHop) : NlsrRib R :=
  (keptHops maxFaces entry.2).foldl
    (addHop engine faces nlsrOrigin childInherit entry.1) state

def removeRoute (newInstalled : HashMap (Name × String) Unit) (rib : R) (key : Name × String) : R :=
  if key ∈ newInstalled then rib
  else
    match faces.findFaceIdByUri key.2 with
    | none => rib
    | some face => engine.remove rib key.1 face nlsrOrigin

/-- The FIB is written from the RIB afterwards. -/
def applyNptToRib (state : NlsrRib R) (newEntries : List (Name × List NextHop)) : NlsrRib R :=
  let added := newEntries.foldl (addEntry engine faces nlsrOrigin childInherit maxFaces)
    { state with installed := ∅ }
  { added with
    rib := state.installed.keys.foldl (removeRoute engine faces nlsrOrigin added.installed)
      added.rib }

def onSnapshot (state : NlsrRib R) (npt : NamePrefixTable) : NlsrRib R :=
  applyNptToRib engine faces nlsrOrigin childInherit maxFaces state npt.snapshot

end Apply

section Follows

variable (faces : FaceTable) (maxFaces : Nat) (hops : List NextHop)

/-- The next-hop URIs that resolve to a face. -/
def resolvingUris : Finset String :=
  ((hops.map (·.faceUri)).filter (fun uri => (faces.findFaceIdByUri uri).isSome)).toFinset

/-- `chosen` are the cheapest resolving URIs, as many as allowed: each URI left out is listed at no
lower cost than the chosen ones. Where two are listed at the same lowest cost either may be left
out. -/
structure Cheapest (chosen : Finset String) : Prop where
  resolving : chosen ⊆ resolvingUris faces hops
  many : chosen.card = if maxFaces = 0 then (resolvingUris faces hops).card
    else min maxFaces (resolvingUris faces hops).card
  cheapest : ∀ uri ∈ chosen, ∀ left ∈ hops, left.faceUri ∈ resolvingUris faces hops →
    left.faceUri ∉ chosen → ∃ nh ∈ hops, nh.faceUri = uri ∧ nh.cost ≤ left.cost

/-- The lowest cost that is listed for the URI. -/
def IsLowest (uri : String) (lowest : ℚ) : Prop :=
  IsLeast {cost | ∃ nh ∈ hops, nh.faceUri = uri ∧ nh.cost = cost} lowest

/-- The NLSR routes of the prefix are the faces of the cheapest resolving next hops, each at the
integer part of the lowest cost listed for it. -/
def FollowsHops {R : Type} (engine : EngineRib R) (nlsrOrigin childInherit : Nat) (rib : R)
    (prefixName : Name) : Prop :=
  ∃ chosen, Cheapest faces maxFaces hops chosen ∧
    ∀ face route, engine.route rib prefixName face nlsrOrigin = some route ↔
      ∃ uri ∈ chosen, faces.findFaceIdByUri uri = some face ∧
        ∃ lowest, IsLowest hops uri lowest ∧
          route = nlsrRoute nlsrOrigin childInherit face (costAsU32 lowest)

/-- The hops within the limit are such that the last one for a URI has the lowest integer cost
listed for it, and unless they name every resolving URI, they name distinct resolving URIs of which
none is dearer than one left out. -/
structure WellListed : Prop where
  named : (∀ nh ∈ hops, nh.faceUri ∈ resolvingUris faces hops →
      nh.faceUri ∈ (keptHops maxFaces hops).map (·.faceUri)) ∨
    (((keptHops maxFaces hops).map (·.faceUri)).Nodup ∧
      ∀ kept ∈ keptHops maxFaces hops, kept.faceUri ∈ resolvingUris faces hops ∧
        ∀ left ∈ hops, left.faceUri ∈ resolvingUris faces hops →
          left.faceUri ∉ (keptHops maxFaces hops).map (·.faceUri) →
            ∃ nh ∈ hops, nh.faceUri = kept.faceUri ∧ nh.cost ≤ left.cost)
  last : ∀ uri ∈ resolvingUris faces hops, ∀ nh,
    ((keptHops maxFaces hops).filter (fun nh => nh.faceUri = uri)).getLast? = some nh →
      ∀ other ∈ hops, other.faceUri = uri → costAsU32 nh.cost ≤ costAsU32 other.cost

end Follows

variable {face : Nat} {uri : String} {hops : List NextHop} {nh : NextHop}

section Faces

variable {faces : FaceTable}

theorem findFaceIdByUri_inj {uri' : String}
    (found : faces.findFaceIdByUri uri = some face)
    (found' : faces.findFaceIdByUri uri' = some face) : uri = uri' := by
  rcases Option.map_eq_some_iff.mp found with ⟨info, here, rfl⟩
  rcases Option.map_eq_some_iff.mp found' with ⟨info', here', same⟩
  have one := inj_on_of_nodup_map faces.distinct (mem_of_find?_eq_some here)
    (mem_of_find?_eq_some here') same.symm
  have uri₁ := List.find?_some here
  have uri₂ := List.find?_some here'
  rw [decide_eq_true_eq] at uri₁ uri₂
  rw [one, uri₂] at uri₁
  exact (Option.some.inj uri₁).symm

theorem mem_resolvingUris :
    uri ∈ resolvingUris faces hops ↔
      (∃ nh ∈ hops, nh.faceUri = uri) ∧ (faces.findFaceIdByUri uri).isSome := by
  simp [resolvingUris]

theorem mem_resolvingUris_of_resolves
    (listed : nh ∈ hops) (resolves : faces.findFaceIdByUri nh.faceUri = some face) :
    nh.faceUri ∈ resolvingUris faces hops :=
  mem_resolvingUris.mpr ⟨⟨nh, listed, rfl⟩, Option.isSome_iff_exists.mpr ⟨face, resolves⟩⟩

theorem costAsU32_mono {low high : ℚ} (le : low ≤ high) : costAsU32 low ≤ costAsU32 high := by
  unfold costAsU32
  have floors := Int.toNat_le_toNat (Rat.floor_monotone le)
  omega

theorem keptHops_subset {maxFaces : Nat}
    (member : nh ∈ keptHops maxFaces hops) : nh ∈ hops := by
  unfold keptHops at member
  split at member
  · exact mem_of_mem_take member
  · exact member

theorem exists_isLowest
    (listed : ∃ nh ∈ hops, nh.faceUri = uri) : ∃ lowest, IsLowest hops uri lowest := by
  rcases listed with ⟨nh, member, same⟩
  have some' : (hops.filter (fun nh => nh.faceUri = uri)).map (·.cost) ≠ [] := by
    intro none
    rw [map_eq_nil_iff, filter_eq_nil_iff] at none
    exact none nh member (by simpa using same)
  rcases Option.isSome_iff_exists.mp (isSome_min?_of_ne_nil some') with ⟨lowest, found⟩
  refine ⟨lowest, ?_⟩
  rw [List.min?_eq_some_iff] at found
  simp only [mem_map, mem_filter, decide_eq_true_eq] at found
  rcases found with ⟨⟨nh', both, rfl⟩, least⟩
  refine ⟨⟨nh', both.1, both.2, rfl⟩, ?_⟩
  rintro cost ⟨other, inside, its, rfl⟩
  exact least other.cost ⟨other, ⟨inside, its⟩, rfl⟩

end Faces

section Step

variable {R : Type} {engine : EngineRib R} {faces : FaceTable}
  {nlsrOrigin childInherit maxFaces : Nat}

/-- The last of the hops that resolves to the face. -/
def lastHop (faces : FaceTable) (hops : List NextHop) (face : Nat) : Option NextHop :=
  (hops.filter (fun nh => faces.findFaceIdByUri nh.faceUri = some face)).getLast?

theorem lastHop_append (hops : List NextHop) (nh : NextHop) (face : Nat) :
    lastHop faces (hops ++ [nh]) face =
      if faces.findFaceIdByUri nh.faceUri = some face then some nh else lastHop faces hops face := by
  unfold lastHop
  rw [filter_append]
  split
  · rw [filter_cons_of_pos (by simpa)]
    exact List.getLast?_concat
  · rw [filter_cons_of_neg (by simpa)]
    rw [filter_nil, append_nil]

theorem route_addHop (prefixName other : Name) (state : NlsrRib R) (nh : NextHop) (face : Nat) :
    engine.route (addHop engine faces nlsrOrigin childInherit prefixName state nh).rib other face
        nlsrOrigin =
      if other = prefixName ∧ faces.findFaceIdByUri nh.faceUri = some face then
        some (nlsrRoute nlsrOrigin childInherit face (costAsU32 nh.cost))
      else engine.route state.rib other face nlsrOrigin := by
  unfold addHop
  cases found : faces.findFaceIdByUri nh.faceUri with
  | none => rw [if_neg (by simp)]
  | some resolved =>
    rw [engine.route_add]
    by_cases same : other = prefixName ∧ face = resolved
    · rcases same with ⟨rfl, rfl⟩
      rw [if_pos ⟨rfl, rfl, rfl⟩, if_pos ⟨rfl, rfl⟩]
    · rw [if_neg (fun all => same ⟨all.1, all.2.1⟩),
        if_neg (fun both => same ⟨both.1, (Option.some.inj both.2).symm⟩)]

theorem route_addHops (prefixName other : Name) (hops : List NextHop) (state : NlsrRib R)
    (face : Nat) :
    engine.route (hops.foldl (addHop engine faces nlsrOrigin childInherit prefixName) state).rib
        other face nlsrOrigin =
      if other = prefixName then
        ((lastHop faces hops face).map (fun nh =>
          nlsrRoute nlsrOrigin childInherit face (costAsU32 nh.cost))).or
            (engine.route state.rib other face nlsrOrigin)
      else engine.route state.rib other face nlsrOrigin := by
  induction hops using List.reverseRecOn with
  | nil => rw [foldl_nil, lastHop, filter_nil, List.getLast?_nil, Option.map_none,
      Option.none_or, ite_self]
  | append_singleton hops nh ih =>
    rw [foldl_append, foldl_cons, foldl_nil, route_addHop, ih, lastHop_append]
    by_cases same : other = prefixName
    · by_cases found : faces.findFaceIdByUri nh.faceUri = some face
      · rw [if_pos ⟨same, found⟩, if_pos same, if_pos found, Option.map_some, Option.some_or]
      · rw [if_neg (fun both => found both.2), if_pos same, if_pos same, if_neg found]
    · rw [if_neg (fun both => same both.1), if_neg same, if_neg same]

theorem mem_addHops (prefixName : Name) (hops : List NextHop) (state : NlsrRib R)
    (key : Name × String) :
    key ∈ (hops.foldl (addHop engine faces nlsrOrigin childInherit prefixName) state).installed ↔
      key ∈ state.installed ∨ key.1 = prefixName ∧ ∃ nh ∈ hops, nh.faceUri = key.2 := by
  induction hops generalizing state with
  | nil => simp
  | cons nh rest ih =>
    have first : key ∈ (addHop engine faces nlsrOrigin childInherit prefixName state nh).installed ↔
        key = (prefixName, nh.faceUri) ∨ key ∈ state.installed := by
      rw [← AList.mem_insert]
      unfold addHop
      split <;> rfl
    rw [foldl_cons, ih, first]
    simp only [mem_cons, exists_eq_or_imp, Prod.ext_iff]
    constructor
    · rintro ((⟨same, uri⟩ | old) | ⟨same, later⟩)
      · exact Or.inr ⟨same, Or.inl uri.symm⟩
      · exact Or.inl old
      · exact Or.inr ⟨same, Or.inr later⟩
    · rintro (old | ⟨same, uri | later⟩)
      · exact Or.inl (Or.inr old)
      · exact Or.inl (Or.inl ⟨same, uri.symm⟩)
      · exact Or.inr ⟨same, later⟩

/-- The additions for a list of distinct prefixes. -/
theorem addEntries (hopsOf : Name → List NextHop) {names : List Name} (distinct : names.Nodup)
    (state : NlsrRib R) (other : Name) (face : Nat) (uri : String) :
    (engine.route ((names.map (fun prefixName => (prefixName, hopsOf prefixName))).foldl
          (addEntry engine faces nlsrOrigin childInherit maxFaces) state).rib other face
          nlsrOrigin =
        if other ∈ names then
          ((lastHop faces (keptHops maxFaces (hopsOf other)) face).map (fun nh =>
            nlsrRoute nlsrOrigin childInherit face (costAsU32 nh.cost))).or
              (engine.route state.rib other face nlsrOrigin)
        else engine.route state.rib other face nlsrOrigin) ∧
      ((other, uri) ∈ ((names.map (fun prefixName => (prefixName, hopsOf prefixName))).foldl
          (addEntry engine faces nlsrOrigin childInherit maxFaces) state).installed ↔
        (other, uri) ∈ state.installed ∨
          other ∈ names ∧ ∃ nh ∈ keptHops maxFaces (hopsOf other), nh.faceUri = uri) := by
  induction names generalizing state with
  | nil => simp
  | cons prefixName rest ih =>
    rw [nodup_cons] at distinct
    rcases ih distinct.2
      (addEntry engine faces nlsrOrigin childInherit maxFaces state
        (prefixName, hopsOf prefixName)) with ⟨routes, installed⟩
    rw [map_cons, foldl_cons, routes, installed]
    unfold addEntry
    rw [route_addHops, mem_addHops]
    by_cases same : other = prefixName
    · subst same
      rw [if_neg distinct.1, if_pos rfl, if_pos mem_cons_self]
      simp [distinct.1]
    · simp [same]

theorem route_removeRoute (newInstalled : HashMap (Name × String) Unit) (key : Name × String)
    (rib : R) (prefixName : Name) (face : Nat) :
    engine.route (removeRoute engine faces nlsrOrigin newInstalled rib key) prefixName face
        nlsrOrigin =
      if key.1 = prefixName ∧ key ∉ newInstalled ∧ faces.findFaceIdByUri key.2 = some face then none
      else engine.route rib prefixName face nlsrOrigin := by
  unfold removeRoute
  split
  · rw [if_neg (fun all => all.2.1 ‹_›)]
  · rename_i gone
    cases found : faces.findFaceIdByUri key.2 with
    | none => rw [if_neg (by simp)]
    | some resolved =>
      rw [engine.route_remove]
      by_cases same : prefixName = key.1 ∧ face = resolved
      · rw [if_pos ⟨same.1, same.2, rfl⟩, if_pos ⟨same.1.symm, gone, by rw [same.2]⟩]
      · rw [if_neg (fun all => same ⟨all.1, all.2.1⟩),
          if_neg (fun all => same ⟨all.1.symm, (Option.some.inj all.2.2).symm⟩)]

theorem route_removeRoutes (newInstalled : HashMap (Name × String) Unit)
    (old : List (Name × String)) (rib : R) (prefixName : Name) (face : Nat) :
    engine.route (old.foldl (removeRoute engine faces nlsrOrigin newInstalled) rib) prefixName face
        nlsrOrigin =
      if ∃ key ∈ old, key.1 = prefixName ∧ key ∉ newInstalled ∧
          faces.findFaceIdByUri key.2 = some face then none
      else engine.route rib prefixName face nlsrOrigin := by
  induction old generalizing rib with
  | nil => rw [foldl_nil, if_neg (by simp)]
  | cons key rest ih =>
    rw [foldl_cons, ih, route_removeRoute]
    simp only [mem_cons, exists_eq_or_imp]
    by_cases later : ∃ key ∈ rest, key.1 = prefixName ∧ key ∉ newInstalled ∧
        faces.findFaceIdByUri key.2 = some face
    · rw [if_pos later, if_pos (Or.inr later)]
    · rw [if_neg later]
      by_cases now : key.1 = prefixName ∧ key ∉ newInstalled ∧
          faces.findFaceIdByUri key.2 = some face
      · rw [if_pos now, if_pos (Or.inl now)]
      · rw [if_neg now, if_neg (not_or.mpr ⟨now, later⟩)]

/-- Every NLSR route is through the face of an installed URI. -/
def Tracked (engine : EngineRib R) (faces : FaceTable) (nlsrOrigin : Nat) (state : NlsrRib R) :
    Prop :=
  ∀ prefixName face, engine.route state.rib prefixName face nlsrOrigin ≠ none →
    ∃ uri, (prefixName, uri) ∈ state.installed ∧ faces.findFaceIdByUri uri = some face

theorem nexthopsForPrefix_absent {npt : NamePrefixTable} {prefixName : Name}
    (absent : prefixName ∉ npt.entries.keys) : npt.nexthopsForPrefix prefixName = [] := by
  have none : npt.entries.lookup prefixName = none := AList.lookup_eq_none.mpr absent
  unfold NamePrefixTable.nexthopsForPrefix NamePrefixTable.destRoutersOf
  rw [none]
  rfl

theorem lastHop_nil (faces : FaceTable) (face : Nat) : lastHop faces [] face = none := rfl

theorem keptHops_nil (maxFaces : Nat) : keptHops maxFaces [] = [] := by
  unfold keptHops
  split <;> simp

theorem mem_lastHop
    (last : lastHop faces hops face = some nh) :
    nh ∈ hops ∧ faces.findFaceIdByUri nh.faceUri = some face := by
  have member := mem_of_getLast? last
  rw [mem_filter, decide_eq_true_eq] at member
  exact member

theorem lastHop_eq_none :
    lastHop faces hops face = none ↔
      ∀ nh ∈ hops, faces.findFaceIdByUri nh.faceUri ≠ some face := by
  rw [lastHop, List.getLast?_eq_none_iff, filter_eq_nil_iff]
  simp only [decide_eq_true_eq]

/-- What the additions of a call leave. -/
theorem added_onSnapshot (state : NlsrRib R) (npt : NamePrefixTable) (prefixName : Name)
    (face : Nat) (uri : String) :
    (engine.route (npt.snapshot.foldl (addEntry engine faces nlsrOrigin childInherit maxFaces)
          { state with installed := ∅ }).rib prefixName face nlsrOrigin =
        ((lastHop faces (keptHops maxFaces (npt.nexthopsForPrefix prefixName)) face).map (fun nh =>
          nlsrRoute nlsrOrigin childInherit face (costAsU32 nh.cost))).or
            (engine.route state.rib prefixName face nlsrOrigin)) ∧
      ((prefixName, uri) ∈ (npt.snapshot.foldl
          (addEntry engine faces nlsrOrigin childInherit maxFaces)
          { state with installed := ∅ }).installed ↔
        ∃ nh ∈ keptHops maxFaces (npt.nexthopsForPrefix prefixName), nh.faceUri = uri) := by
  have added := @addEntries R engine faces nlsrOrigin childInherit maxFaces npt.nexthopsForPrefix
    npt.entries.keys npt.entries.keys_nodup { state with installed := ∅ } prefixName face uri
  unfold NamePrefixTable.snapshot
  rw [added.1, added.2]
  by_cases listed : prefixName ∈ npt.entries.keys
  · simp [listed]
  · rw [nexthopsForPrefix_absent listed, keptHops_nil, lastHop_nil]
    simp [listed]

/-- After a call the route through a face is that of the last kept hop that resolves to it. -/
theorem route_onSnapshot {state : NlsrRib R} (tracked : Tracked engine faces nlsrOrigin state)
    (npt : NamePrefixTable) (prefixName : Name) (face : Nat) :
    engine.route (onSnapshot engine faces nlsrOrigin childInherit maxFaces state npt).rib prefixName
        face nlsrOrigin =
      (lastHop faces (keptHops maxFaces (npt.nexthopsForPrefix prefixName)) face).map
        (fun nh => nlsrRoute nlsrOrigin childInherit face (costAsU32 nh.cost)) := by
  have added := @added_onSnapshot R engine faces nlsrOrigin childInherit maxFaces state npt prefixName
  unfold onSnapshot applyNptToRib
  rw [route_removeRoutes, (added face "").1]
  cases last : lastHop faces (keptHops maxFaces (npt.nexthopsForPrefix prefixName)) face with
  | some nh =>
    rcases mem_lastHop last with ⟨kept, resolves⟩
    rw [if_neg, Option.map_some, Option.some_or]
    rintro ⟨⟨owner, uri⟩, -, rfl, gone, resolves'⟩
    apply gone
    exact ((added face uri).2).mpr ⟨nh, kept, findFaceIdByUri_inj resolves resolves'⟩
  | none =>
    rw [Option.map_none, Option.none_or]
    split
    · rfl
    · rename_i stays
      by_contra route
      rcases tracked prefixName face route with ⟨uri, installed, resolves⟩
      apply stays
      refine ⟨(prefixName, uri), installed, rfl, ?_, resolves⟩
      intro listed
      rcases ((added face uri).2).mp listed with ⟨nh, kept, rfl⟩
      exact lastHop_eq_none.mp last nh kept resolves

theorem tracked_onSnapshot {state : NlsrRib R} (tracked : Tracked engine faces nlsrOrigin state)
    (npt : NamePrefixTable) :
    Tracked engine faces nlsrOrigin
      (onSnapshot engine faces nlsrOrigin childInherit maxFaces state npt) := by
  intro prefixName face route
  rw [route_onSnapshot tracked npt, Ne, Option.map_eq_none_iff] at route
  rcases Option.ne_none_iff_exists'.mp route with ⟨nh, last⟩
  rcases mem_lastHop last with ⟨kept, resolves⟩
  exact ⟨nh.faceUri, ((added_onSnapshot state npt prefixName face nh.faceUri).2).mpr
    ⟨nh, kept, rfl⟩, resolves⟩

end Step

section Exact

variable {R : Type} {engine : EngineRib R} {faces : FaceTable}
  {nlsrOrigin childInherit maxFaces : Nat}

theorem lastHop_eq
    (resolves : faces.findFaceIdByUri uri = some face) :
    lastHop faces hops face = (hops.filter (fun nh => nh.faceUri = uri)).getLast? := by
  unfold lastHop
  congr 1
  apply filter_congr
  intro nh _
  rw [decide_eq_decide]
  constructor
  · intro same
    exact findFaceIdByUri_inj same resolves
  · intro same
    rw [same, resolves]

theorem keptHops_whole (maxFaces : Nat) (hops : List NextHop) :
    keptHops maxFaces hops = hops ∨
      0 < maxFaces ∧ (keptHops maxFaces hops).length = maxFaces := by
  unfold keptHops
  split
  · rename_i cut
    exact Or.inr ⟨cut.1, length_take_of_le cut.2.le⟩
  · exact Or.inl rfl

theorem length_keptHops_le (hops : List NextHop) (limited : 0 < maxFaces) :
    (keptHops maxFaces hops).length ≤ maxFaces := by
  unfold keptHops
  split
  · exact length_take_le _ _
  · omega

theorem card_resolvingUris_le (hops : List NextHop) :
    (resolvingUris faces hops).card ≤ hops.length := by
  calc (resolvingUris faces hops).card
    _ ≤ ((hops.map (·.faceUri)).filter (fun uri => (faces.findFaceIdByUri uri).isSome)).length :=
      toFinset_card_le _
    _ ≤ (hops.map (·.faceUri)).length := length_filter_le _ _
    _ = hops.length := length_map _

/-- As many resolving URIs as hops: all resolve and are distinct. -/
theorem card_resolvingUris_eq :
    (resolvingUris faces hops).card = hops.length ↔
      (hops.map (·.faceUri)).Nodup ∧ ∀ nh ∈ hops, nh.faceUri ∈ resolvingUris faces hops := by
  have length : (hops.map (·.faceUri)).length = hops.length := length_map _
  constructor
  · intro full
    have atMost := toFinset_card_le
      ((hops.map (·.faceUri)).filter (fun uri => (faces.findFaceIdByUri uri).isSome))
    have filtered : (hops.map (·.faceUri)).filter
        (fun uri => (faces.findFaceIdByUri uri).isSome) = hops.map (·.faceUri) := by
      apply filter_sublist.eq_of_length_le
      rw [length, ← full]
      exact atMost
    unfold resolvingUris at full ⊢
    rw [filtered] at full ⊢
    constructor
    · rw [← Multiset.coe_nodup, ← Multiset.toFinset_card_eq_card_iff_nodup]
      exact full.trans length.symm
    · intro nh member
      exact mem_toFinset.mpr (mem_map_of_mem member)
  · intro ⟨nodup, resolving⟩
    have filtered : (hops.map (·.faceUri)).filter
        (fun uri => (faces.findFaceIdByUri uri).isSome) = hops.map (·.faceUri) := by
      rw [filter_eq_self]
      intro uri member
      rcases mem_map.mp member with ⟨nh, listed, rfl⟩
      exact (mem_resolvingUris.mp (resolving nh listed)).2
    unfold resolvingUris
    rw [filtered, toFinset_card_of_nodup nodup, length]

theorem resolvingUris_kept_subset (hops : List NextHop) :
    resolvingUris faces (keptHops maxFaces hops) ⊆ resolvingUris faces hops := by
  intro uri member
  rw [mem_resolvingUris] at member ⊢
  rcases member with ⟨⟨nh, kept, same⟩, resolves⟩
  exact ⟨⟨nh, keptHops_subset kept, same⟩, resolves⟩

theorem lastHop_of_mem
    (member : uri ∈ resolvingUris faces hops) (resolves : faces.findFaceIdByUri uri = some face) :
    ∃ nh, lastHop faces hops face = some nh ∧ nh.faceUri = uri := by
  rcases (mem_resolvingUris.mp member).1 with ⟨nh, listed, rfl⟩
  cases last : lastHop faces hops face with
  | none => exact absurd resolves (lastHop_eq_none.mp last nh listed)
  | some nh' => exact ⟨nh', rfl, findFaceIdByUri_inj (mem_lastHop last).2 resolves⟩

/-- Where the last hop has the lowest integer cost, that is the integer part of the lowest cost. -/
theorem cost_lastHop {lowest : ℚ} (listed : nh ∈ hops)
    (least : IsLowest hops nh.faceUri lowest)
    (last : ∀ other ∈ hops, other.faceUri = nh.faceUri → costAsU32 nh.cost ≤ costAsU32 other.cost) :
    costAsU32 nh.cost = costAsU32 lowest := by
  apply le_antisymm
  · rcases least.1 with ⟨other, member, same, rfl⟩
    exact last other member same
  · exact costAsU32_mono (least.2 ⟨nh, listed, rfl, rfl⟩)

/-- The kept hops name every resolving URI, or fewer than there are and as many as allowed. -/
theorem named_or_full (hops : List NextHop) :
    resolvingUris faces (keptHops maxFaces hops) = resolvingUris faces hops ∨
      0 < maxFaces ∧ (keptHops maxFaces hops).length = maxFaces ∧
        (resolvingUris faces (keptHops maxFaces hops)).card < (resolvingUris faces hops).card := by
  by_cases same : resolvingUris faces (keptHops maxFaces hops) = resolvingUris faces hops
  · exact Or.inl same
  · right
    rcases keptHops_whole maxFaces hops with whole | full
    · rw [whole] at same
      exact absurd rfl same
    · exact ⟨full.1, full.2,
        Finset.card_lt_card ((resolvingUris_kept_subset hops).ssubset_of_ne same)⟩

/-- The URIs of the kept hops are the cheapest exactly when these are listed so. -/
theorem cheapest_kept_iff (hops : List NextHop) :
    Cheapest faces maxFaces hops (resolvingUris faces (keptHops maxFaces hops)) ↔
      (∀ nh ∈ hops, nh.faceUri ∈ resolvingUris faces hops →
        nh.faceUri ∈ (keptHops maxFaces hops).map (·.faceUri)) ∨
      (((keptHops maxFaces hops).map (·.faceUri)).Nodup ∧
        ∀ kept ∈ keptHops maxFaces hops, kept.faceUri ∈ resolvingUris faces hops ∧
          ∀ left ∈ hops, left.faceUri ∈ resolvingUris faces hops →
            left.faceUri ∉ (keptHops maxFaces hops).map (·.faceUri) →
              ∃ nh ∈ hops, nh.faceUri = kept.faceUri ∧ nh.cost ≤ left.cost) := by
  have named : ∀ uri, uri ∈ resolvingUris faces hops →
      (uri ∈ (keptHops maxFaces hops).map (·.faceUri) ↔
        uri ∈ resolvingUris faces (keptHops maxFaces hops)) := by
    intro uri member
    rw [mem_resolvingUris] at member ⊢
    rw [mem_map]
    exact ⟨fun listed => ⟨listed, member.2⟩, fun both => both.1⟩
  rcases @named_or_full faces maxFaces hops with all | ⟨limited, full, fewer⟩
  · apply iff_of_true
    · refine ⟨resolvingUris_kept_subset hops, ?_, ?_⟩
      · rw [all]
        split
        · rfl
        · have few := @card_resolvingUris_le faces (keptHops maxFaces hops)
          have bound := @length_keptHops_le maxFaces hops (by omega)
          rw [all] at few
          omega
      · intro uri _ left _ resolves absent
        rw [all] at absent
        exact absurd resolves absent
    · left
      intro nh _ resolves
      rw [named _ resolves, all]
      exact resolves
  · constructor
    · intro cheapest
      have many := cheapest.many
      rw [if_neg (by omega)] at many
      rcases card_resolvingUris_eq.mp
        (show (resolvingUris faces (keptHops maxFaces hops)).card = _ by omega) with
        ⟨nodup, resolving⟩
      refine Or.inr ⟨nodup, ?_⟩
      intro kept member
      refine ⟨resolvingUris_kept_subset hops (resolving kept member), ?_⟩
      intro left listed resolves absent
      rw [named _ resolves] at absent
      exact cheapest.cheapest kept.faceUri (resolving kept member) left listed resolves absent
    · rintro (all | ⟨nodup, each⟩)
      · have covers : resolvingUris faces hops ⊆ resolvingUris faces (keptHops maxFaces hops) := by
          intro uri member
          rcases (mem_resolvingUris.mp member).1 with ⟨nh, listed, rfl⟩
          exact (named _ member).mp (all nh listed member)
        have atMost := Finset.card_le_card covers
        omega
      · have whole := card_resolvingUris_eq.mpr ⟨nodup, fun kept member =>
          (named _ (each kept member).1).mp (mem_map_of_mem member)⟩
        refine ⟨resolvingUris_kept_subset hops, ?_, ?_⟩
        · rw [if_neg (by omega)]
          omega
        · intro uri member left listed resolves absent
          rcases (mem_resolvingUris.mp member).1 with ⟨kept, inside, rfl⟩
          rw [← named _ resolves] at absent
          exact (each kept inside).2 left listed resolves absent

section Routes

variable {hops : List NextHop} {rib : R} {prefixName : Name}
  (routes : ∀ face, engine.route rib prefixName face nlsrOrigin =
    (lastHop faces (keptHops maxFaces hops) face).map
      (fun nh => nlsrRoute nlsrOrigin childInherit face (costAsU32 nh.cost)))

include routes in
/-- What the routes follow are the URIs of the kept hops. -/
theorem chosen_eq {chosen : Finset String} (resolving : chosen ⊆ resolvingUris faces hops)
    (follows : ∀ face route, engine.route rib prefixName face nlsrOrigin = some route ↔
      ∃ uri ∈ chosen, faces.findFaceIdByUri uri = some face ∧
        ∃ lowest, IsLowest hops uri lowest ∧
          route = nlsrRoute nlsrOrigin childInherit face (costAsU32 lowest)) :
    chosen = resolvingUris faces (keptHops maxFaces hops) := by
  ext uri
  constructor
  · intro member
    rcases mem_resolvingUris.mp (resolving member) with ⟨listed, resolves⟩
    rcases Option.isSome_iff_exists.mp resolves with ⟨face, resolves⟩
    rcases exists_isLowest listed with ⟨lowest, least⟩
    have route := (follows face _).mpr ⟨uri, member, resolves, lowest, least, rfl⟩
    rw [routes] at route
    rcases Option.map_eq_some_iff.mp route with ⟨nh, last, -⟩
    rcases mem_lastHop last with ⟨kept, resolves'⟩
    rw [← findFaceIdByUri_inj resolves' resolves]
    exact mem_resolvingUris_of_resolves kept resolves'
  · intro member
    rcases Option.isSome_iff_exists.mp (mem_resolvingUris.mp member).2 with ⟨face, resolves⟩
    rcases lastHop_of_mem member resolves with ⟨nh, last, -⟩
    have route := routes face
    rw [last, Option.map_some] at route
    rcases (follows face _).mp route with ⟨other, inside, resolves', -⟩
    rw [findFaceIdByUri_inj resolves resolves']
    exact inside

include routes in
/-- A route at the lowest cost has it from the last hop for its URI. -/
theorem last_le_of_follows {chosen : Finset String}
    (follows : ∀ face route, engine.route rib prefixName face nlsrOrigin = some route ↔
      ∃ uri ∈ chosen, faces.findFaceIdByUri uri = some face ∧
        ∃ lowest, IsLowest hops uri lowest ∧
          route = nlsrRoute nlsrOrigin childInherit face (costAsU32 lowest))
    (member : uri ∈ resolvingUris faces hops) {other : NextHop}
    (last : ((keptHops maxFaces hops).filter (fun nh => nh.faceUri = uri)).getLast? = some nh)
    (listed : other ∈ hops) (same : other.faceUri = uri) :
    costAsU32 nh.cost ≤ costAsU32 other.cost := by
  rcases Option.isSome_iff_exists.mp (mem_resolvingUris.mp member).2 with ⟨face, resolves⟩
  rw [← lastHop_eq resolves] at last
  have route := routes face
  rw [last, Option.map_some] at route
  rcases (follows face _).mp route with ⟨uri', -, resolves', lowest, least, made⟩
  cases findFaceIdByUri_inj resolves resolves'
  have cost : costAsU32 nh.cost = costAsU32 lowest := congrArg RibRoute.cost made
  rw [cost]
  exact costAsU32_mono (least.2 ⟨other, listed, same, rfl⟩)

include routes in
/-- Well listed hops have every route at the lowest cost. -/
theorem follows_of_wellListed (listed : WellListed faces maxFaces hops) (face : Nat)
    (route : RibRoute) :
    engine.route rib prefixName face nlsrOrigin = some route ↔
      ∃ uri ∈ resolvingUris faces (keptHops maxFaces hops),
        faces.findFaceIdByUri uri = some face ∧ ∃ lowest, IsLowest hops uri lowest ∧
          route = nlsrRoute nlsrOrigin childInherit face (costAsU32 lowest) := by
  have cost : ∀ nh, lastHop faces (keptHops maxFaces hops) face = some nh → ∀ least,
      IsLowest hops nh.faceUri least → costAsU32 nh.cost = costAsU32 least := by
    intro nh last least isLeast
    rcases mem_lastHop last with ⟨kept, resolves⟩
    apply cost_lastHop (keptHops_subset kept) isLeast
    apply listed.last nh.faceUri _ nh
    · rw [← lastHop_eq resolves, last]
    · exact mem_resolvingUris_of_resolves (keptHops_subset kept) resolves
  rw [routes, Option.map_eq_some_iff]
  constructor
  · intro ⟨nh, last, made⟩
    rcases mem_lastHop last with ⟨kept, resolves⟩
    rcases exists_isLowest ⟨nh, keptHops_subset kept, rfl⟩ with ⟨least, isLeast⟩
    refine ⟨nh.faceUri, mem_resolvingUris_of_resolves kept resolves, resolves, least, isLeast, ?_⟩
    rw [← cost nh last least isLeast, made]
  · intro ⟨uri, member, resolves, least, isLeast, made⟩
    rcases lastHop_of_mem member resolves with ⟨nh, last, rfl⟩
    refine ⟨nh, last, ?_⟩
    rw [cost nh last least isLeast, made]

include routes in
/-- The routes of one prefix follow its hops exactly when these are well listed. -/
theorem followsHops_iff :
    FollowsHops faces maxFaces hops engine nlsrOrigin childInherit rib prefixName ↔
      WellListed faces maxFaces hops := by
  constructor
  · intro ⟨chosen, cheapest, follows⟩
    have same := chosen_eq routes cheapest.resolving follows
    subst same
    refine ⟨(cheapest_kept_iff hops).mp cheapest, ?_⟩
    intro uri member nh last other listed own
    exact last_le_of_follows routes follows member last listed own
  · intro listed
    exact ⟨_, (cheapest_kept_iff hops).mpr listed.named, follows_of_wellListed routes listed⟩

end Routes

/-- After every call the NLSR routes follow the name prefix table exactly when every table lists
the next hops of every prefix well. -/
theorem rib_follows_iff (engine : EngineRib R) (faces : FaceTable)
    (nlsrOrigin childInherit maxFaces : Nat) (rib : R)
    (clean : ∀ prefixName face, engine.route rib prefixName face nlsrOrigin = none)
    (tables : List NamePrefixTable) :
    Run.Throughout (onSnapshot engine faces nlsrOrigin childInherit maxFaces) ⟨rib, ∅⟩ tables
        (fun before npt => ∀ prefixName,
          FollowsHops faces maxFaces (npt.nexthopsForPrefix prefixName) engine nlsrOrigin
            childInherit
            (onSnapshot engine faces nlsrOrigin childInherit maxFaces before npt).rib prefixName) ↔
      ∀ npt ∈ tables, ∀ prefixName,
        WellListed faces maxFaces (npt.nexthopsForPrefix prefixName) := by
  rw [← @Run.throughout_inputs _ _ (onSnapshot engine faces nlsrOrigin childInherit maxFaces)
    ⟨rib, ∅⟩]
  apply Run.throughout_iff (Tracked engine faces nlsrOrigin)
  · intro state npt tracked
    apply forall_congr'
    intro prefixName
    exact followsHops_iff (route_onSnapshot tracked npt prefixName)
  · intro state npt tracked _
    exact tracked_onSnapshot tracked npt
  · intro prefixName face route
    exact absurd (clean prefixName face) route

/-- Faces 1 and 2. -/
def twoFaces : FaceTable :=
  ⟨[⟨1, some "udp4://10.0.0.1:6363"⟩, ⟨2, some "udp4://10.0.0.2:6363"⟩], by decide⟩

/-- Routers `/97` and `/98` both announce `/112`. -/
def announcedTwice (first second : List NextHop) : NamePrefixTable where
  entries := AList.singleton (Name.single 112)
    ((NptEntry.single (Name.single 98)).add (Name.single 97))
  routerPool := ((∅ : HashMap Name RoutingTableEntry).insert (Name.single 97)
    ⟨Name.single 97, first⟩).insert (Name.single 98) ⟨Name.single 98, second⟩

theorem wellListed_nil (faces : FaceTable) (maxFaces : Nat) : WellListed faces maxFaces [] := by
  refine ⟨Or.inl (by simp), ?_⟩
  intro uri member
  simp [mem_resolvingUris] at member

theorem rib_follows_iff_twoFaces :
    FollowsHops twoFaces 1 ((announcedTwice [⟨"udp4://10.0.0.1:6363", 10⟩]
        [⟨"udp4://10.0.0.2:6363", 20⟩]).nexthopsForPrefix (Name.single 112)) Dv.hashEngine 128 1
      (onSnapshot Dv.hashEngine twoFaces 128 1 1 ⟨∅, ∅⟩
        (announcedTwice [⟨"udp4://10.0.0.1:6363", 10⟩] [⟨"udp4://10.0.0.2:6363", 20⟩])).rib
      (Name.single 112) := by
  have listed : ∀ npt ∈ [announcedTwice [⟨"udp4://10.0.0.1:6363", 10⟩]
      [⟨"udp4://10.0.0.2:6363", 20⟩]], ∀ prefixName,
        WellListed twoFaces 1 (npt.nexthopsForPrefix prefixName) := by
    intro npt member prefixName
    rw [List.mem_singleton.mp member]
    by_cases same : prefixName = Name.single 112
    · subst same
      refine ⟨by decide +kernel, ?_⟩
      intro uri _ nh last other listed same
      have kept := List.mem_of_getLast? last
      rw [show keptHops 1 _ = [(⟨"udp4://10.0.0.1:6363", 10⟩ : NextHop)] by decide +kernel,
        List.mem_filter, List.mem_singleton, decide_eq_true_eq] at kept
      rcases kept with ⟨rfl, rfl⟩
      have all : ∀ other ∈ ([⟨"udp4://10.0.0.1:6363", 10⟩, ⟨"udp4://10.0.0.2:6363", 20⟩] :
          List NextHop), other.faceUri = "udp4://10.0.0.1:6363" →
            costAsU32 10 ≤ costAsU32 other.cost := by
        decide +kernel
      exact all other listed same
    · rw [nexthopsForPrefix_absent]
      · exact wellListed_nil _ _
      · intro listed
        exact same (List.mem_singleton.mp listed)
  exact (rib_follows_iff Dv.hashEngine twoFaces 128 1 1 ∅ (fun _ _ => rfl) _).mpr listed
    [] _ [] rfl (Name.single 112)

/-- With one face allowed the dearer of two next hops is taken when it is listed first, and of two
costs listed for one next hop the later one when it is the higher. -/
theorem dearer_hop_taken :
    ¬ FollowsHops twoFaces 1 ((announcedTwice [⟨"udp4://10.0.0.1:6363", 20⟩]
          [⟨"udp4://10.0.0.2:6363", 10⟩]).nexthopsForPrefix (Name.single 112)) Dv.hashEngine 128 1
        (onSnapshot Dv.hashEngine twoFaces 128 1 1 ⟨∅, ∅⟩
          (announcedTwice [⟨"udp4://10.0.0.1:6363", 20⟩] [⟨"udp4://10.0.0.2:6363", 10⟩])).rib
        (Name.single 112) ∧
      ¬ FollowsHops twoFaces 0 ((announcedTwice [⟨"udp4://10.0.0.1:6363", 10⟩]
          [⟨"udp4://10.0.0.1:6363", 20⟩]).nexthopsForPrefix (Name.single 112)) Dv.hashEngine 128 1
        (onSnapshot Dv.hashEngine twoFaces 128 1 0 ⟨∅, ∅⟩
          (announcedTwice [⟨"udp4://10.0.0.1:6363", 10⟩] [⟨"udp4://10.0.0.1:6363", 20⟩])).rib
        (Name.single 112) := by
  have tracked : Tracked Dv.hashEngine twoFaces 128 ⟨∅, ∅⟩ :=
    fun _ _ route => absurd rfl route
  constructor
  · rw [followsHops_iff (route_onSnapshot tracked _ (Name.single 112))]
    intro listed
    exact absurd listed.named (by decide +kernel)
  · rw [followsHops_iff (route_onSnapshot tracked _ (Name.single 112))]
    intro listed
    have last := listed.last "udp4://10.0.0.1:6363" (by decide +kernel)
      ⟨"udp4://10.0.0.1:6363", 20⟩ (by decide +kernel) ⟨"udp4://10.0.0.1:6363", 10⟩
      (by decide +kernel) rfl
    exact absurd last (by decide +kernel)

end Exact

end NdnExt.Nlsr
