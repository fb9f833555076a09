import NdnExt.Nan.Windows

/-! Any number of engines, whose frames may be lost, delayed, reordered and heard any number of
times. -/

namespace NdnExt.Nan

open NdnExt.Lib NdnExt.Lib.Keyed NdnExt.Lib.Run

/-- What an engine sent, with the time of its poll, and what it surfaced. -/
inductive Occurrence (ι : Type) where
  | sent (sender : ι) (now : Usec) (bytes : Bytes)
  | surfaced (observer : ι) (event : NanEvent)

structure Network (ι : Type) where
  engine : ι → NanEngine
  history : List (Occurrence ι)

inductive NetworkAction (ι : Type) where
  | call (i : ι) (call : Call)
  | poll (i : ι) (now : Usec) (inbound : List RxFrame)

namespace Network

variable {ι : Type} [DecidableEq ι] (sha256 : Bytes → Vector UInt8 32)

def start (cfg : ι → NanConfig) (rendezvous : ι → Rendezvous) : Network ι where
  engine i := .withRendezvous (cfg i) (rendezvous i)
  history := []

/-- What a poll at `now` adds to the history. -/
def occurrences (i : ι) (now : Usec) (step : Step) : List (Occurrence ι) :=
  step.events.map (.surfaced i) ++ step.tx.map fun frame => .sent i now frame.bytes

def step (net : Network ι) : NetworkAction ι → Network ι
  | .call i call =>
    { net with engine := Function.update net.engine i ((net.engine i).called sha256 call) }
  | .poll i now inbound =>
    let (engine, step) := (net.engine i).poll now inbound
    { engine := Function.update net.engine i engine
      history := net.history ++ occurrences i now step }

def run (net : Network ι) (actions : List (NetworkAction ι)) : Network ι :=
  actions.foldl (step sha256) net

/-- Only what was sent is heard. -/
def Heard (net : Network ι) : NetworkAction ι → Prop
  | .call _ _ => True
  | .poll _ _ inbound => ∀ rx ∈ inbound, ∃ j sentAt, .sent j sentAt rx.bytes ∈ net.history

/-- Frames are heard at the time of their poll or later. -/
def HeardLater (net : Network ι) : NetworkAction ι → Prop
  | .call _ _ => True
  | .poll _ _ inbound => ∀ rx ∈ inbound, ∃ j sentAt,
    .sent j sentAt rx.bytes ∈ net.history ∧ sentAt ≤ rx.nowUsec

/-- Every frame there has been, heard at `now`. -/
def allFrames (net : Network ι) (now : Usec) : List RxFrame :=
  net.history.filterMap fun
    | .sent _ _ bytes => some ⟨bytes, none, now⟩
    | .surfaced _ _ => none

/-- Polls that hear all there has been, again and again. -/
def repeatedly (sha256 : Bytes → Vector UInt8 32) (net : Network ι) :
    List (ι × Usec) → List (NetworkAction ι)
  | [] => []
  | (i, now) :: rest =>
    .poll i now (net.allFrames now) ::
      repeatedly sha256 (net.step sha256 (.poll i now (net.allFrames now))) rest

omit [DecidableEq ι] in
theorem heard_allFrames (net : Network ι) (i : ι) (now : Usec) :
    net.Heard (.poll i now (net.allFrames now)) := by
  intro rx found
  rcases List.mem_filterMap.mp found with ⟨occurrence, mem, heard⟩
  cases occurrence with
  | sent j sentAt bytes =>
    cases heard
    exact ⟨j, sentAt, mem⟩
  | surfaced j event => cases heard

theorem heard_repeatedly (sha256 : Bytes → Vector UInt8 32) (net : Network ι)
    (schedule : List (ι × Usec)) :
    Throughout (step sha256) net (net.repeatedly sha256 schedule) Heard := by
  induction schedule generalizing net with
  | nil => exact throughout_nil net _
  | cons turn schedule ih =>
    rw [repeatedly, throughout_cons]
    exact ⟨net.heard_allFrames turn.1 turn.2, ih _⟩

/-- Frames that are not heard before the last of them was sent. -/
theorem heardLater_repeatedly (sha256 : Bytes → Vector UInt8 32) (net : Network ι) (latest : Usec)
    (past : ∀ j sentAt bytes, .sent j sentAt bytes ∈ net.history → sentAt ≤ latest)
    (schedule : List (ι × Usec))
    (ordered : List.IsChain (· ≤ ·) (latest :: schedule.map Prod.snd)) :
    Throughout (step sha256) net (net.repeatedly sha256 schedule) HeardLater := by
  induction schedule generalizing net latest with
  | nil => exact throughout_nil net _
  | cons turn schedule ih =>
    rcases turn with ⟨i, now⟩
    rw [List.map_cons, List.isChain_cons_cons] at ordered
    rw [repeatedly, throughout_cons]
    refine ⟨?_, ih _ now ?_ ordered.2⟩
    · intro rx found
      rcases List.mem_filterMap.mp found with ⟨occurrence, mem, heard⟩
      cases occurrence with
      | sent j sentAt bytes =>
        cases heard
        exact ⟨j, sentAt, mem, UInt64.le_trans (past j sentAt bytes mem) ordered.1⟩
      | surfaced j event => cases heard
    · intro j sentAt bytes found
      rcases List.mem_append.mp found with earlier | new
      · exact UInt64.le_trans (past j sentAt bytes earlier) ordered.1
      · rcases List.mem_append.mp new with surfaced | sent
        · rcases List.mem_map.mp surfaced with ⟨_, _, same⟩
          cases same
        · rcases List.mem_map.mp sent with ⟨_, _, same⟩
          cases same
          exact UInt64.le_refl _

end Network

/-- Two engines, each with a data interface of its own. -/
def twoEngines (second : Bool) : NanConfig :=
  (NanConfig.new #v[2, 0, 0, 0, 0, second.toUInt8] 6 128).withNdi #v[6, 0, 0, 0, 0, second.toUInt8]

end NdnExt.Nan
