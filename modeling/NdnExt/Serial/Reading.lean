import NdnExt.Lib.Stage
import NdnExt.Serial.Framed

/-! What the reader hands on, turn by turn, of a stream cut into chunks. -/

namespace NdnExt.Serial

open NdnExt.Lib NdnExt.Lib.Segments NdnExt.Lib.Stage List

/-- The frame in a segment: an empty one or one that is no COBS has none. -/
def frameOf (segment : Bytes) : Option Bytes :=
  if segment = [] then none else (cobsDecode segment []).toOption

/-- The segments that each chunk closes. -/
def arrivals (opened : Bytes) : List Bytes → List (List Bytes)
  | [] => []
  | chunk :: later => (split 0 opened chunk).1 :: arrivals (split 0 opened chunk).2 later

def framesIn (opened stream : Bytes) : List Bytes := (split 0 opened stream).1.filterMap frameOf

/-- A segment that neither the size test nor the limit on frames stands against. -/
structure Admitted (codec : CobsCodec) (segment : Bytes) : Prop where
  pending : segment.length ≤ codec.maxFrameLen * 2
  decoded : ∀ frame, cobsDecode segment [] = .ok frame → frame.length ≤ codec.maxFrameLen

variable {codec : CobsCodec}

variable {segment opened : Bytes} {queue : List Bytes}

theorem segmentResult_admitted (admitted : Admitted codec segment) :
    codec.segmentResult segment = .ok (frameOf segment) := by
  unfold CobsCodec.segmentResult frameOf
  split
  · rfl
  · cases decodes : cobsDecode segment [] with
    | ok frame =>
      dsimp only
      rw [if_neg (Nat.not_lt_of_le (admitted.decoded frame decodes))]
      rfl
    | error => rfl

/-- Segments that are complete in the buffer. -/
def Complete (codec : CobsCodec) (segments : List Bytes) : Prop :=
  ∀ segment ∈ segments, 0 ∉ segment ∧ Admitted codec segment

theorem drain_frame {frame : Bytes} (rest : Bytes) (clean : 0 ∉ segment)
    (admitted : Admitted codec segment) (found : frameOf segment = some frame) :
    codec.drain (segment ++ 0 :: rest) =
      (frame :: (codec.drain rest).1, (codec.drain rest).2) := by
  have decodes := codec.decode_segment rest clean
  rw [segmentResult_admitted admitted, found] at decodes
  exact codec.drain_of_decode decodes

theorem drain_skip (rest : Bytes) (clean : 0 ∉ segment)
    (admitted : Admitted codec segment) (skips : frameOf segment = none) :
    codec.drain (segment ++ 0 :: rest) = ([], .ok rest) := by
  have decodes := codec.decode_segment rest clean
  rw [segmentResult_admitted admitted, skips] at decodes
  exact codec.drain_of_decode decodes

/-- A skipped segment ends the turn: what follows it stays in the buffer. -/
theorem drain_stalled (tail : Bytes) (complete : Complete codec queue)
    (stalls : 0 < skipped frameOf queue) :
    codec.drain (join 0 queue ++ tail) =
      (handed frameOf queue, .ok (join 0 (kept frameOf queue) ++ tail)) := by
  induction queue with
  | nil => exact absurd stalls (Nat.lt_irrefl 0)
  | cons segment rest ih =>
    have head := complete segment (mem_cons_self ..)
    have shape : join 0 (segment :: rest) ++ tail = segment ++ 0 :: (join 0 rest ++ tail) := by
      rw [join_cons, append_assoc, cons_append]
    rw [shape]
    cases found : frameOf segment with
    | none => simp [drain_skip _ head.1 head.2 found, handed, kept, usable, found]
    | some frame =>
      have later : 0 < skipped frameOf rest := by
        simpa [skipped, usable, found] using stalls
      rw [drain_frame _ head.1 head.2 found,
        ih (fun next member => complete next (mem_cons_of_mem _ member)) later]
      simp [handed, kept, usable, found]

theorem drain_clear (tail : Bytes) (complete : Complete codec queue)
    (clear : skipped frameOf queue = 0) :
    codec.drain (join 0 queue ++ tail) =
      (handed frameOf queue ++ (codec.drain tail).1, (codec.drain tail).2) := by
  induction queue with
  | nil => rfl
  | cons segment rest ih =>
    have head := complete segment (mem_cons_self ..)
    have shape : join 0 (segment :: rest) ++ tail = segment ++ 0 :: (join 0 rest ++ tail) := by
      rw [join_cons, append_assoc, cons_append]
    rw [shape]
    cases found : frameOf segment with
    | none => simp [skipped, usable, found] at clear
    | some frame =>
      have later : skipped frameOf rest = 0 := by
        simpa [skipped, usable, found] using clear
      rw [drain_frame _ head.1 head.2 found,
        ih (fun next member => complete next (mem_cons_of_mem _ member)) later]
      simp [handed, usable, found]

theorem framesIn_append (opened front back : Bytes) :
    framesIn opened (front ++ back) =
      framesIn opened front ++ framesIn (split 0 opened front).2 back := by
  rw [framesIn, split_append, filterMap_append]
  rfl

theorem segments_flatten (opened : Bytes) (chunks : List Bytes) :
    (split 0 opened chunks.flatten).1 = (arrivals opened chunks).flatten := by
  induction chunks generalizing opened with
  | nil => rfl
  | cons chunk later ih =>
    rw [flatten_cons, split_append, ih]
    rfl

/-- After each chunk every frame that the stream has closed is delivered, and nothing else. -/
def Survives (codec : CobsCodec) (chunks : List Bytes) : Prop :=
  ∀ turn, ∃ rest, codec.read (chunks.take turn) =
    ⟨framesIn [] (chunks.take turn).flatten, .ok rest⟩

theorem Survives.delivered {chunks : List Bytes} (survives : Survives codec chunks) (turn : Nat) :
    (codec.read (chunks.take turn)).delivered = framesIn [] (chunks.take turn).flatten := by
  rcases survives turn with ⟨rest, read⟩
  rw [read]

/-- The same, one chunk after the other. -/
def Follows (codec : CobsCodec) : Reader → Bytes → List Bytes → Prop
  | _, _, [] => True
  | reader, opened, chunk :: later =>
    (∃ rest, reader.feed codec chunk = ⟨reader.delivered ++ framesIn opened chunk, .ok rest⟩) ∧
      Follows codec (reader.feed codec chunk) (split 0 opened chunk).2 later

theorem unread_of_running {reader : Reader} {buf : Bytes} (opened : Bytes)
    (running : reader.pending = .ok buf) :
    reader = ⟨reader.delivered ++ framesIn opened [], .ok buf⟩ := by
  rw [← running, framesIn, split, filterMap_nil, append_nil]

theorem follows_iff (chunks : List Bytes) {reader : Reader} {buf : Bytes} (opened : Bytes)
    (running : reader.pending = .ok buf) :
    Follows codec reader opened chunks ↔
      ∀ turn, ∃ rest, (chunks.take turn).foldl (Reader.feed codec) reader =
        ⟨reader.delivered ++ framesIn opened (chunks.take turn).flatten, .ok rest⟩ := by
  induction chunks generalizing reader buf opened with
  | nil =>
    refine iff_of_true trivial ?_
    intro turn
    rw [take_nil]
    exact ⟨buf, unread_of_running opened running⟩
  | cons chunk later ih =>
    constructor
    · intro ⟨⟨next, fed⟩, follows⟩ turn
      cases turn with
      | zero => exact ⟨buf, unread_of_running opened running⟩
      | succ turn =>
        have running' : (reader.feed codec chunk).pending = .ok next := by rw [fed]
        have all := (ih (split 0 opened chunk).2 running').mp follows
        rcases all turn with ⟨rest, taken⟩
        refine ⟨rest, ?_⟩
        rw [take_succ_cons, foldl_cons, taken, flatten_cons, framesIn_append,
          fed, append_assoc]
    · intro all
      rcases all 1 with ⟨next, fed⟩
      rw [take_succ_cons, take_zero, flatten_singleton] at fed
      have fed : reader.feed codec chunk =
        ⟨reader.delivered ++ framesIn opened chunk, .ok next⟩ := fed
      refine ⟨⟨next, fed⟩, ?_⟩
      have running' : (reader.feed codec chunk).pending = .ok next := by rw [fed]
      refine (ih (split 0 opened chunk).2 running').mpr ?_
      intro turn
      rcases all (turn + 1) with ⟨rest, taken⟩
      refine ⟨rest, ?_⟩
      rw [take_succ_cons, foldl_cons, flatten_cons, framesIn_append,
        ← append_assoc] at taken
      rw [taken, fed]

theorem survives_iff (chunks : List Bytes) :
    Survives codec chunks ↔ Follows codec Reader.start [] chunks :=
  (@follows_iff codec chunks Reader.start [] [] rfl).symm

/-- The condition on the stream: `owed` segments without a frame still wait for their turn. A turn
takes one of them, and what it leaves must hold no frame. -/
def InTime (codec : CobsCodec) : Nat → List (List Bytes) → Prop
  | _, [] => True
  | owed, closed :: later =>
    ((owed = 0 ∨ Idle frameOf closed) ∧ Idle frameOf (closed.dropWhile (usable frameOf))) ∧
      (codec.maxFrameLen * 2 < 2 ^ 64 ∨ 0 < owed + skipped frameOf closed) ∧
      InTime codec (owed + skipped frameOf closed - 1) later

instance decidableInTime (codec : CobsCodec) :
    ∀ owed closed, Decidable (InTime codec owed closed)
  | _, [] => isTrue trivial
  | owed, closed :: later =>
    have := decidableInTime codec (owed + skipped frameOf closed - 1) later
    inferInstanceAs (Decidable (_ ∧ _ ∧ _))

/-- The buffer between two turns: segments without a frame, then what has come of the next one. -/
structure Waiting (codec : CobsCodec) (reader : Reader) (opened : Bytes) (later : List Bytes)
    (queue : List Bytes) (tail : Bytes) : Prop where
  buffer : reader.pending = .ok (join 0 queue ++ tail)
  complete : Complete codec queue
  idle : Idle frameOf queue
  clean : 0 ∉ tail
  same : tail = opened ∨ 0 ∉ later.flatten

theorem feed_running {reader : Reader} {buf : Bytes} (chunk : Bytes)
    (running : reader.pending = .ok buf) :
    reader.feed codec chunk =
      ⟨reader.delivered ++ (codec.drain (buf ++ chunk)).1, (codec.drain (buf ++ chunk)).2⟩ := by
  rw [Reader.feed, running]

theorem Waiting.buffer_append {reader : Reader} {tail chunk : Bytes}
    {later : List Bytes} (waiting : Waiting codec reader opened (chunk :: later) queue tail)
    (start : 0 ∉ opened) :
    ∃ next, join 0 queue ++ tail ++ chunk = join 0 (queue ++ (split 0 opened chunk).1) ++ next ∧
      0 ∉ next ∧ (next = (split 0 opened chunk).2 ∨ 0 ∉ later.flatten) := by
  rcases waiting.same with same | quiet
  · refine ⟨(split 0 opened chunk).2, ?_, (split_clean chunk start).2, Or.inl rfl⟩
    rw [join_append, append_assoc, append_assoc, join_split, same]
  · rw [flatten_cons, mem_append, not_or] at quiet
    refine ⟨tail ++ chunk, ?_, by simp [waiting.clean, quiet.1], Or.inr quiet.2⟩
    rw [split_of_not_mem opened quiet.1, append_nil, append_assoc]

theorem filterMap_idle_append (closed : List Bytes)
    (idle : Idle frameOf queue) :
    (queue ++ closed).filterMap frameOf = closed.filterMap frameOf := by
  rw [filterMap_append, idle_iff.mp idle, nil_append]

/-- What has come of a segment that will be closed is no longer than that segment. -/
theorem opened_length_le {later : List Bytes}
    (admitted : ∀ segment ∈ (split 0 opened later.flatten).1, Admitted codec segment)
    (closes : 0 ∈ later.flatten) : opened.length ≤ codec.maxFrameLen * 2 := by
  rcases exists_segment opened closes with ⟨segment, member, front⟩
  exact Nat.le_trans front.length_le (admitted segment member).pending

/-- The buffer after a turn on complete segments and what has come of the next one. -/
def CobsCodec.leave (codec : CobsCodec) (queue : List Bytes) (opened : Bytes) :
    Outcome String Bytes :=
  if 0 < skipped frameOf queue then .ok (join 0 (kept frameOf queue) ++ opened)
  else if codec.maxFrameLen * 2 < 2 ^ 64 then
    .ok (if opened.length > codec.maxFrameLen * 2 then [] else opened)
  else .panic

theorem drain_turn (complete : Complete codec queue)
    (clean : 0 ∉ opened) :
    codec.drain (join 0 queue ++ opened) = (handed frameOf queue, codec.leave queue opened) := by
  unfold CobsCodec.leave
  by_cases stalls : 0 < skipped frameOf queue
  · rw [drain_stalled opened complete stalls, if_pos stalls]
  · rw [drain_clear opened complete (by omega), if_neg stalls, codec.drain_of_clean clean]
    split <;> simp

theorem leave_ok_iff (queue : List Bytes) (opened : Bytes) :
    (∃ rest, codec.leave queue opened = .ok rest) ↔
      codec.maxFrameLen * 2 < 2 ^ 64 ∨ 0 < skipped frameOf queue := by
  unfold CobsCodec.leave
  by_cases stalls : 0 < skipped frameOf queue
  · rw [if_pos stalls]
    exact iff_of_true ⟨_, rfl⟩ (Or.inr stalls)
  · rw [if_neg stalls]
    by_cases fits : codec.maxFrameLen * 2 < 2 ^ 64
    · rw [if_pos fits]
      exact iff_of_true ⟨_, rfl⟩ (Or.inl fits)
    · rw [if_neg fits]
      exact iff_of_false (by simp) (not_or.mpr ⟨fits, stalls⟩)

section Turn

variable {reader : Reader} {opened tail chunk : Bytes} {later queue : List Bytes}

/-- All that is complete in the buffer once `chunk` is there. -/
abbrev onTurn (queue : List Bytes) (opened chunk : Bytes) : List Bytes :=
  queue ++ (split 0 opened chunk).1

section

variable (waiting : Waiting codec reader opened (chunk :: later) queue tail)
include waiting

theorem Waiting.complete_onTurn (start : 0 ∉ opened)
    (admitted : ∀ segment ∈ (split 0 opened chunk).1, Admitted codec segment) :
    Complete codec (onTurn queue opened chunk) := by
  intro segment member
  rcases mem_append.mp member with member | member
  · exact waiting.complete segment member
  · exact ⟨(split_clean chunk start).1 segment member, admitted segment member⟩

theorem Waiting.skipped_onTurn :
    skipped frameOf (onTurn queue opened chunk) =
      queue.length + skipped frameOf (split 0 opened chunk).1 := by
  rw [← skipped_of_idle waiting.idle]
  exact countP_append

theorem Waiting.feed
    (start : 0 ∉ opened)
    (admitted : ∀ segment ∈ (split 0 opened chunk).1, Admitted codec segment) :
    ∃ next, reader.feed codec chunk =
        ⟨reader.delivered ++ handed frameOf (onTurn queue opened chunk),
          codec.leave (onTurn queue opened chunk) next⟩ ∧
      0 ∉ next ∧ (next = (split 0 opened chunk).2 ∨ 0 ∉ later.flatten) := by
  rcases waiting.buffer_append start with ⟨next, buffer, clean, same⟩
  refine ⟨next, ?_, clean, same⟩
  rw [feed_running chunk waiting.buffer, buffer,
    drain_turn (waiting.complete_onTurn start admitted) clean]

/-- A turn is as it should be exactly under the condition on the stream. -/
theorem Waiting.turn_iff
    (start : 0 ∉ opened)
    (admitted : ∀ segment ∈ (split 0 opened chunk).1, Admitted codec segment) :
    (∃ rest, reader.feed codec chunk = ⟨reader.delivered ++ framesIn opened chunk, .ok rest⟩) ↔
      Idle frameOf (kept frameOf (onTurn queue opened chunk)) ∧
        (codec.maxFrameLen * 2 < 2 ^ 64 ∨
          0 < queue.length + skipped frameOf (split 0 opened chunk).1) := by
  rcases waiting.feed start admitted with ⟨next, fed, _⟩
  have frames : framesIn opened chunk = (onTurn queue opened chunk).filterMap frameOf :=
    (filterMap_idle_append _ waiting.idle).symm
  rw [fed, frames, ← waiting.skipped_onTurn, ← handed_eq_iff, ← leave_ok_iff _ next]
  simp only [Reader.mk.injEq, append_cancel_left_eq, exists_and_left]

theorem Waiting.next
    (start : 0 ∉ opened)
    (admitted : ∀ segment ∈ (split 0 opened (chunk :: later).flatten).1, Admitted codec segment)
    (idle : Idle frameOf (kept frameOf (onTurn queue opened chunk)))
    (runs : codec.maxFrameLen * 2 < 2 ^ 64 ∨
      0 < queue.length + skipped frameOf (split 0 opened chunk).1) :
    ∃ next, Waiting codec (reader.feed codec chunk) (split 0 opened chunk).2 later
      (kept frameOf (onTurn queue opened chunk)) next := by
  rw [flatten_cons, split_append] at admitted
  have now : ∀ segment ∈ (split 0 opened chunk).1, Admitted codec segment :=
    fun segment member => admitted segment (mem_append_left _ member)
  have then' : ∀ segment ∈ (split 0 (split 0 opened chunk).2 later.flatten).1,
      Admitted codec segment :=
    fun segment member => admitted segment (mem_append_right _ member)
  have complete := waiting.complete_onTurn start now
  have keptComplete : Complete codec (kept frameOf (onTurn queue opened chunk)) := by
    intro segment member
    exact complete segment ((dropWhile_sublist _).mem (mem_of_mem_tail member))
  rcases waiting.feed start now with ⟨next, fed, clean, same⟩
  rw [← waiting.skipped_onTurn] at runs
  by_cases stalls : 0 < skipped frameOf (onTurn queue opened chunk)
  · refine ⟨next, ?_, keptComplete, idle, clean, same⟩
    rw [fed, CobsCodec.leave, if_pos stalls]
  · have fits := runs.resolve_right stalls
    have all : kept frameOf (onTurn queue opened chunk) = [] := kept_eq_nil stalls
    refine ⟨if next.length > codec.maxFrameLen * 2 then [] else next, ?_, keptComplete, idle,
      ?_, ?_⟩
    · rw [fed, CobsCodec.leave, if_neg stalls, if_pos fits, all]
      rfl
    · split
      · exact not_mem_nil
      · exact clean
    · by_cases closes : 0 ∈ later.flatten
      · have bound := opened_length_le then' closes
        have opens := same.resolve_right (not_not_intro closes)
        rw [opens, if_neg (Nat.not_lt_of_le bound)]
        exact Or.inl rfl
      · exact Or.inr closes

end

end Turn

/-- Reading keeps up with the stream exactly if no frame comes behind a skipped segment that still
waits, and no turn runs into the overflow of the size test. -/
theorem follows_iff_inTime (chunks : List Bytes) {reader : Reader} {opened tail : Bytes}
    {queue : List Bytes} (waiting : Waiting codec reader opened chunks queue tail)
    (start : 0 ∉ opened)
    (admitted : ∀ segment ∈ (split 0 opened chunks.flatten).1, Admitted codec segment) :
    Follows codec reader opened chunks ↔
      InTime codec queue.length (arrivals opened chunks) := by
  induction chunks generalizing reader opened tail queue with
  | nil => exact Iff.rfl
  | cons chunk later ih =>
    have split' := admitted
    rw [flatten_cons, split_append] at split'
    have now : ∀ segment ∈ (split 0 opened chunk).1, Admitted codec segment :=
      fun segment member => split' segment (mem_append_left _ member)
    rw [Follows, waiting.turn_iff start now, arrivals, InTime, and_assoc]
    have idles : Idle frameOf (kept frameOf (onTurn queue opened chunk)) ↔ _ :=
      idle_kept_iff waiting.idle
    rw [length_eq_zero_iff, ← idles]
    refine and_congr_right (fun idle => and_congr_right (fun runs => ?_))
    rcases waiting.next start admitted idle runs with ⟨next, waits⟩
    rw [← length_kept waiting.idle idle]
    exact ih waits (split_clean chunk start).2
      (fun segment member => split' segment (mem_append_right _ member))

theorem survives_iff_inTime (chunks : List Bytes)
    (admitted : ∀ segment ∈ (split 0 [] chunks.flatten).1, Admitted codec segment) :
    Survives codec chunks ↔ InTime codec 0 (arrivals [] chunks) := by
  rw [survives_iff]
  exact @follows_iff_inTime codec chunks Reader.start [] [] []
    ⟨rfl, nofun, nofun, not_mem_nil, Or.inl rfl⟩ not_mem_nil admitted

theorem inTime_of_usable (fits : codec.maxFrameLen * 2 < 2 ^ 64) {turns : List (List Bytes)}
    (frames : ∀ segment ∈ turns.flatten, usable frameOf segment) : InTime codec 0 turns := by
  induction turns with
  | nil => trivial
  | cons closed later ih =>
    rw [flatten_cons, forall_mem_append] at frames
    have all : closed.dropWhile (usable frameOf) = [] :=
      dropWhile_eq_nil_iff.mpr frames.1
    have none : skipped frameOf closed = 0 := by
      rw [← skipped_dropWhile, all]
      rfl
    rw [InTime, none, all]
    exact ⟨⟨Or.inl rfl, nofun⟩, Or.inl fits, ih frames.2⟩

end NdnExt.Serial
