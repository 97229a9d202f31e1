import CipherChat.FrameReader

/-!
# The worker as a frame reader

The worker loop with a handler that always returns true, over a TLS stream that is
cut up in any way, while its output half takes frames and writes them in any pieces
with any retries.  The frames it handles and the way it ends are the records of the
stream, the same as for the blocking reader.
-/

namespace CipherChat

/-- What `SSL_write_ex` does at one call, while it has the choice. -/
inductive WriteItem
  | part (k : ℕ)
  | want (write : Bool)
  deriving DecidableEq, Repr

/-- How the worker sees the answer of `SSL_read_ex`. -/
def TlsAnswer.toRead : TlsAnswer → ReadResult
  | .data bytes => .data bytes
  | .zeroReturn => .failed .zeroReturn
  | .want write _ => .failed (if write then .wantWrite else .wantRead)
  | .failed errno => .failed (.syscall errno)

structure Reader where
  worker : Worker := {}
  source : TlsSource
  /-- What the next calls of `take_outgoing_frame` find; later ones find nothing. -/
  takes : List (Option OutgoingFrame)
  /-- What the next calls of `SSL_write_ex` do; later ones write all. -/
  writes : List WriteItem
  /-- The frames passed to `handle_frame`. -/
  frames : List Bytes := []

namespace Reader

def nextTake (r : Reader) : Option OutgoingFrame := (r.takes.head?).join

def nextWrite (r : Reader) : WriteResult :=
  let rest := r.worker.outgoingLength - r.worker.sent
  match r.writes with
  | [] => .written rest
  | .part k :: _ => .written (min rest (k + 1))
  | .want write :: _ => .failed (if write then .wantWrite else .wantRead)

/-- One call of the loop. -/
def step (r : Reader) : Reader :=
  let w := r.worker
  match w.pc with
  | .drain => { r with worker := w.afterDrain none }
  | .status => { r with worker := w.afterStatus (.ok ()) }
  | .take => { r with worker := w.afterTake (.ok r.nextTake), takes := r.takes.tail }
  | .write => { r with worker := w.afterWrite r.nextWrite, writes := r.writes.tail }
  | .read =>
    let answer := r.source.read (w.needed - w.received)
    { r with worker := w.afterRead answer.1.toRead, source := answer.2 }
  | .handle frame => { r with worker := w.afterHandle true, frames := r.frames ++ [frame] }
  | .poll => { r with worker := w.afterPoll none }
  | .done _ => r

def run (n : ℕ) (r : Reader) : Reader := step^[n] r

end Reader

namespace Worker

def Input (w : Worker) : Prop :=
  (w.needed = 4 ∧ w.received < 4) ∨
    (4 ≤ w.received ∧ w.received < w.needed ∧
      w.needed = 4 + BigEndian.decode (w.incoming.take 4) ∧
      BigEndian.decode (w.incoming.take 4) ≤ frameMaxSize)

/-- A pending write is staged, and excludes a read that waits to write; what is staged
is not yet all sent. -/
structure Output (w : Worker) : Prop where
  wait : w.writeWait ≠ .none → w.outgoingLength ≠ 0 ∧ w.readWait ≠ .pollout
  sent : w.outgoingLength ≠ 0 → w.sent < w.outgoingLength

/-- Neither in the handler nor finished. -/
def loops (w : Worker) : Bool :=
  match w.pc with
  | .handle _ | .done _ => false
  | _ => true

/-- What holds when the loop makes its next call. -/
def PcOk (w : Worker) : Prop :=
  match w.pc with
  | .take => w.outgoingLength = 0
  | .write => w.outgoingLength ≠ 0 ∧ w.readWait ≠ .pollout
  | .read => w.writeWait = .none
  | _ => True

structure Sound (w : Worker) : Prop where
  output : w.Output
  pc : w.PcOk
  input : w.loops = true → w.Input

/-- The loop went on from `w` to its next call. -/
structure Continues (w w' : Worker) : Prop where
  loops : w'.loops = true
  pc : w'.PcOk
  incoming : w'.incoming = w.incoming
  needed : w'.needed = w.needed
  waits : w'.readWait = w.readWait ∧ w'.writeWait = w.writeWait
  output : w'.outgoingLength = w.outgoingLength ∧ w'.sent = w.sent

theorem Continues.sound {w w' : Worker} (h : w.Continues w') (hi : w.Input) (ho : w.Output) :
    w'.Sound := by
  refine ⟨⟨?_, ?_⟩, h.pc, fun _ => ?_⟩
  · rw [h.waits.1, h.waits.2, h.output.1]
    exact ho.wait
  · rw [h.output.1, h.output.2]
    exact ho.sent
  · rw [Input, received, h.incoming, h.needed]
    exact hi

theorem endIo_continues (w : Worker) : w.Continues w.endIo := by
  refine ⟨?_, ?_, rfl, rfl, ⟨rfl, rfl⟩, ⟨rfl, rfl⟩⟩
  · unfold loops endIo
    cases w.progress <;> rfl
  · unfold PcOk endIo
    cases w.progress <;> trivial

theorem beginRead_continues (w : Worker) : w.Continues w.beginRead := by
  unfold beginRead
  split
  · next h => exact ⟨rfl, h, rfl, rfl, ⟨rfl, rfl⟩, ⟨rfl, rfl⟩⟩
  · exact endIo_continues w

theorem beginIo_continues (w : Worker) : w.Continues w.beginIo := by
  unfold beginIo
  dsimp only
  split
  · next h => exact ⟨rfl, h, rfl, rfl, ⟨rfl, rfl⟩, ⟨rfl, rfl⟩⟩
  · have h := beginRead_continues { w with progress := false }
    exact ⟨h.loops, h.pc, h.incoming, h.needed, h.waits, h.output⟩

theorem beginIo_runs {w : Worker} (h : w.Output) : w.beginIo.pc = .write ∨
    w.beginIo.pc = .read := by
  unfold beginIo
  dsimp only
  split
  · exact .inl rfl
  · next hskip =>
    have hw : w.writeWait = .none := by
      by_contra hne
      exact hskip (h.wait hne)
    exact .inr (by simp [beginRead, hw])

end Worker

namespace Reader

/-- What the reader will have handled at the end, and how it will end. -/
def outcome (r : Reader) : List Bytes × Except Errno Unit :=
  match r.worker.pc with
  | .done result => (r.frames, result)
  | .handle frame => (r.frames ++ frame :: (parseFrames r.source.stream).1,
      (parseFrames r.source.stream).2)
  | _ => (r.frames ++ (parseFrames (r.worker.incoming ++ r.source.stream)).1,
      (parseFrames (r.worker.incoming ++ r.source.stream)).2)

theorem outcome_of_loops {r : Reader} (h : r.worker.loops = true) :
    r.outcome = (r.frames ++ (parseFrames (r.worker.incoming ++ r.source.stream)).1,
      (parseFrames (r.worker.incoming ++ r.source.stream)).2) := by
  unfold Worker.loops at h
  unfold outcome
  cases hpc : r.worker.pc <;> rw [hpc] at h <;> first | rfl | cases h

/-- What a call of `take_outgoing_frame` still costs. -/
def takeCost : Option OutgoingFrame → ℕ
  | some f => 6 + f.payload.length
  | none => 1

/-- How far the reader is from its end: every call but the last uses up some of what
is left, or comes closer to one that does. -/
def left (r : Reader) : ℕ :=
  r.source.script.length + r.source.stream.length + r.writes.length +
    (r.worker.outgoingLength - r.worker.sent) +
    (r.takes.map takeCost).sum

def rank (r : Reader) : ℕ :=
  match r.worker.pc with
  | .done _ => 0
  | .read => 1
  | .write => 2
  | .take => 3
  | .status => 4
  | .drain => 5
  | .poll => 6
  | .handle _ => 7

/-- What one call keeps and gains. -/
structure Advances (r r' : Reader) : Prop where
  sound : r'.worker.Sound
  outcome : r'.outcome = r.outcome
  closer : 8 * r'.left + r'.rank < 8 * r.left + r.rank

variable {r : Reader}

theorem Advances.of_continues {r' : Reader} {w : Worker} (hw : r.worker.loops = true)
    (hi : w.Input) (ho : w.Output) (hc : w.Continues r'.worker)
    (hincoming : w.incoming = r.worker.incoming) (hsource : r'.source = r.source)
    (hframes : r'.frames = r.frames) (hcloser : 8 * r'.left + r'.rank < 8 * r.left + r.rank) :
    Advances r r' := by
  refine ⟨hc.sound hi ho, ?_, hcloser⟩
  rw [outcome_of_loops hw, outcome_of_loops hc.loops, hc.incoming, hincoming, hsource, hframes]

theorem advances_drain (h : r.worker.Sound) (hpc : r.worker.pc = .drain) : Advances r r.step := by
  have hl : r.worker.loops = true := by simp [Worker.loops, hpc]
  have hs : r.step = { r with worker := { r.worker with pc := .status } } := by
    simp only [step, hpc]
    rfl
  rw [hs]
  refine .of_continues hl (h.input hl) h.output
    ⟨rfl, trivial, rfl, rfl, ⟨rfl, rfl⟩, ⟨rfl, rfl⟩⟩ rfl rfl rfl ?_
  simp only [left, rank, hpc]
  omega

theorem advances_poll (h : r.worker.Sound) (hpc : r.worker.pc = .poll) : Advances r r.step := by
  have hl : r.worker.loops = true := by simp [Worker.loops, hpc]
  have hs : r.step = { r with worker := { r.worker with pc := .drain } } := by
    simp only [step, hpc]
    rfl
  rw [hs]
  refine .of_continues hl (h.input hl) h.output
    ⟨rfl, trivial, rfl, rfl, ⟨rfl, rfl⟩, ⟨rfl, rfl⟩⟩ rfl rfl rfl ?_
  simp only [left, rank, hpc]
  omega

theorem rank_beginIo {w : Worker} (ho : w.Output) (r : Reader) :
    ({ r with worker := w.beginIo } : Reader).rank ≤ 2 := by
  unfold rank
  rcases Worker.beginIo_runs ho with h | h <;> simp [h]

theorem advances_status (h : r.worker.Sound) (hpc : r.worker.pc = .status) : Advances r r.step := by
  have hl : r.worker.loops = true := by simp [Worker.loops, hpc]
  have hs : r.step = { r with worker := r.worker.afterStatus (.ok ()) } := by simp only [step, hpc]
  rw [hs, Worker.afterStatus]
  split
  · next h0 =>
    refine .of_continues hl (h.input hl) h.output
      ⟨rfl, h0, rfl, rfl, ⟨rfl, rfl⟩, ⟨rfl, rfl⟩⟩ rfl rfl rfl ?_
    simp only [left, rank, hpc]
    omega
  · have hc := r.worker.beginIo_continues
    refine .of_continues hl (h.input hl) h.output hc rfl rfl rfl ?_
    have hrank := rank_beginIo h.output r
    have hr : r.rank = 4 := by simp only [rank, hpc]
    simp only [left, hc.output.1, hc.output.2]
    omega

theorem advances_take (h : r.worker.Sound) (hpc : r.worker.pc = .take) : Advances r r.step := by
  have hl : r.worker.loops = true := by simp [Worker.loops, hpc]
  have h0 : r.worker.outgoingLength = 0 := by
    have := h.pc
    rwa [Worker.PcOk, hpc] at this
  have hwait : r.worker.writeWait = .none := by
    by_contra hne
    exact (h.output.wait hne).1 h0
  have hr : r.rank = 3 := by simp only [rank, hpc]
  have hs : r.step =
      { r with worker := r.worker.afterTake (.ok r.nextTake), takes := r.takes.tail } := by
    simp only [step, hpc]
  rw [hs]
  -- the queue is empty, or gives up its first frame
  cases ht : r.nextTake with
  | none =>
    rw [Worker.afterTake]
    have hc := r.worker.beginIo_continues
    refine .of_continues hl (h.input hl) h.output hc rfl rfl rfl ?_
    have hrank := rank_beginIo h.output { r with takes := r.takes.tail }
    dsimp only at hrank
    have hsum : (r.takes.tail.map takeCost).sum ≤ (r.takes.map takeCost).sum := by
      cases r.takes <;> simp
    simp only [left, hc.output.1, hc.output.2]
    omega
  | some f =>
    rw [Worker.afterTake]
    obtain ⟨rest, htakes⟩ : ∃ rest, r.takes = some f :: rest := by
      unfold nextTake at ht
      cases hts : r.takes with
      | nil => rw [hts] at ht; cases ht
      | cons t rest =>
        rw [hts] at ht
        exact ⟨rest, by rw [show t = some f from ht]⟩
    have ho : Worker.Output { r.worker with
        outgoing := encodeFrame f.type f.payload, outgoingLength := 4 + 1 + f.payload.length,
        sent := 0 } :=
      ⟨fun hne => absurd hwait hne, fun _ => by simp only; omega⟩
    have hc := Worker.beginIo_continues { r.worker with
        outgoing := encodeFrame f.type f.payload, outgoingLength := 4 + 1 + f.payload.length,
        sent := 0 }
    refine .of_continues (w := { r.worker with
        outgoing := encodeFrame f.type f.payload, outgoingLength := 4 + 1 + f.payload.length,
        sent := 0 }) hl (h.input hl) ho hc rfl rfl rfl ?_
    have hrank := rank_beginIo ho { r with takes := r.takes.tail }
    dsimp only at hrank
    simp only [left, hc.output.1, hc.output.2, htakes, List.tail_cons, List.map_cons, List.sum_cons,
      h0,
      takeCost]
    rw [htakes, List.tail_cons] at hrank
    omega

theorem rank_le (r : Reader) : r.rank ≤ 7 := by
  unfold rank
  split <;> omega

theorem advances_write (h : r.worker.Sound) (hpc : r.worker.pc = .write) : Advances r r.step := by
  have hl : r.worker.loops = true := by simp [Worker.loops, hpc]
  obtain ⟨hne, hread⟩ : r.worker.outgoingLength ≠ 0 ∧ r.worker.readWait ≠ .pollout := by
    have := h.pc
    rwa [Worker.PcOk, hpc] at this
  have hsent := h.output.sent hne
  have hs : r.step =
      { r with worker := r.worker.afterWrite r.nextWrite, writes := r.writes.tail } := by
    simp only [step, hpc]
  rw [hs]
  have htail : r.writes.tail.length ≤ r.writes.length := by simp
  have hrank := rank_le
      { r with worker := r.worker.afterWrite r.nextWrite, writes := r.writes.tail }
  -- some bytes are written, or a retry is used up
  have hresult : (∃ k, r.nextWrite = .written k ∧ 0 < k ∧
        k ≤ r.worker.outgoingLength - r.worker.sent) ∨
      ∃ e wait, r.nextWrite = .failed e ∧ tlsRetry e = .retry wait ∧
        r.writes.tail.length + 1 = r.writes.length := by
    unfold nextWrite
    cases hwr : r.writes with
    | nil => exact .inl ⟨_, rfl, by omega, le_rfl⟩
    | cons item rest =>
      cases item with
      | part k => exact .inl ⟨_, rfl, by omega, by omega⟩
      | want write => cases write <;> exact .inr ⟨_, _, rfl, rfl, by simp⟩
  rcases hresult with ⟨k, hk, hpos, hle⟩ | ⟨e, wait, he, hretry, hlen⟩
  · rw [hk] at hrank ⊢
    rw [Worker.afterWrite] at hrank ⊢
    set w' : Worker := { r.worker with
      sent := r.worker.sent + k, writeWait := .none, progress := true
      outgoingLength := if r.worker.sent + k = r.worker.outgoingLength then 0
        else r.worker.outgoingLength } with hw'
    have ho : w'.Output := by
      refine ⟨fun hc => absurd rfl hc, fun hc => ?_⟩
      rw [hw'] at hc ⊢
      dsimp only at hc ⊢
      split at hc
      · exact absurd rfl hc
      · next hk => rw [if_neg hk]; omega
    have hc := w'.beginRead_continues
    refine .of_continues (w := w') hl (h.input hl) ho hc rfl rfl rfl ?_
    have hout : w'.outgoingLength - w'.sent < r.worker.outgoingLength - r.worker.sent := by
      rw [hw']
      dsimp only
      split <;> omega
    simp only [left, hc.output.1, hc.output.2]
    omega
  · rw [he] at hrank ⊢
    rw [Worker.afterWrite, hretry] at hrank ⊢
    have ho : Worker.Output { r.worker with writeWait := wait } :=
      ⟨fun _ => ⟨hne, hread⟩, h.output.sent⟩
    have hc := Worker.beginRead_continues { r.worker with writeWait := wait }
    refine .of_continues (w := { r.worker with writeWait := wait }) hl (h.input hl) ho hc rfl rfl
      rfl ?_
    simp only [left, hc.output.1, hc.output.2]
    dsimp only at hrank
    omega

theorem advances_handle (h : r.worker.Sound) {frame : Bytes} (hpc : r.worker.pc = .handle frame) :
    Advances r r.step := by
  have hs : r.step =
      { r with worker := r.worker.afterHandle true, frames := r.frames ++ [frame] } := by
    simp only [step, hpc]
  rw [hs, Worker.afterHandle, if_pos rfl]
  have hc := Worker.endIo_continues { r.worker with incoming := [], needed := 4 }
  refine ⟨hc.sound (.inl ⟨rfl, by simp [Worker.received]⟩) ⟨h.output.wait, h.output.sent⟩, ?_, ?_⟩
  · rw [outcome_of_loops hc.loops, hc.incoming]
    simp [outcome, hpc]
  · have hr : r.rank = 7 := by simp only [rank, hpc]
    have hrank : ∀ w : Worker, ({ r with worker := w.endIo, frames := r.frames ++ [frame] } :
        Reader).rank ≤ 6 := by
      intro w
      unfold rank Worker.endIo
      cases w.progress <;> simp
    have := hrank { r.worker with incoming := [], needed := 4 }
    dsimp only at this
    simp only [left, hc.output.1, hc.output.2]
    omega

theorem outcome_done {r : Reader} {e : Except Errno Unit} (h : r.worker.pc = .done e) :
    r.outcome = (r.frames, e) := by
  simp [outcome, h]

theorem advances_data (h : r.worker.Sound) (hpc : r.worker.pc = .read) {bytes : Bytes}
    {rest : TlsSource} (hread : r.source.read (r.worker.needed - r.worker.received) =
      (.data bytes, rest))
    (hi : r.worker.Input) (hlt : r.worker.received < r.worker.needed) : Advances r r.step := by
  have hl : r.worker.loops = true := by simp [Worker.loops, hpc]
  obtain ⟨hstream, hpos, hle, hscript⟩ := TlsSource.read_data (by omega) hread
  have hs : r.step = { r with worker := r.worker.afterRead (.data bytes), source := rest } := by
    simp only [step, hpc, hread]
    rfl
  -- every byte that comes in shortens what is left of the stream
  have hcloser : ∀ (w : Worker) (r' : Reader), r' = { r with worker := w, source := rest } →
      w.outgoingLength = r.worker.outgoingLength → w.sent = r.worker.sent →
      8 * r'.left + r'.rank < 8 * r.left + r.rank := by
    rintro w r' rfl hol hsent
    have hrank := rank_le { r with worker := w, source := rest }
    simp only [left, hol, hsent, hstream, List.length_append]
    omega
  set w : Worker := { r.worker with
    incoming := r.worker.incoming ++ bytes, readWait := .none, progress := true } with hw
  have hreceived : w.received = r.worker.received + bytes.length := by
    simp [hw, Worker.received]
  have ho : w.Output := ⟨fun hne => ⟨(h.output.wait hne).1, by simp [hw]⟩, h.output.sent⟩
  have hafter : r.worker.afterRead (.data bytes) =
      if w.received = w.needed then w.complete else w.endIo := rfl
  have hsame : w.incoming ++ rest.stream = r.worker.incoming ++ r.source.stream := by
    rw [hstream, hw, List.append_assoc]
  rw [hs, hafter]
  split
  · next hfull =>
    unfold Worker.complete
    rcases hi with ⟨h4, -⟩ | ⟨h4, -, hneeded, hmax⟩
    · -- the header is complete
      have hw4 : w.incoming.length = 4 := hfull.trans h4
      rw [if_pos (show w.needed = 4 from h4)]
      dsimp only
      split
      · next hbad =>
        refine ⟨⟨⟨ho.wait, ho.sent⟩, trivial, fun hc => by cases hc⟩, ?_, hcloser _ _ rfl rfl rfl⟩
        rw [outcome_done rfl, outcome_of_loops hl, ← hsame,
          parseFrames_error (by rw [parseFrame_header hw4, if_pos hbad]), List.append_nil]
      · next hgood =>
        have hc := Worker.endIo_continues
          { w with needed := w.needed + BigEndian.decode w.incoming }
        have htake : w.incoming.take 4 = w.incoming := List.take_of_length_le (le_of_eq hw4)
        have hneed : w.needed = 4 := h4
        refine ⟨hc.sound (.inr ⟨?_, ?_, ?_, ?_⟩) ⟨ho.wait, ho.sent⟩, ?_, hcloser _ _ rfl rfl rfl⟩
        · exact le_of_eq hw4.symm
        · change w.incoming.length < w.needed + _
          omega
        · change w.needed + _ = 4 + BigEndian.decode (w.incoming.take 4)
          rw [htake, hneed]
        · change BigEndian.decode (w.incoming.take 4) ≤ frameMaxSize
          rw [htake]
          omega
        · rw [outcome_of_loops hc.loops, outcome_of_loops hl, hc.incoming, hsame]
    · -- the body is complete
      have hne4 : w.needed ≠ 4 := by
        change r.worker.needed ≠ 4
        omega
      rw [if_neg hne4]
      dsimp only
      have hhead : r.worker.incoming.take 4 = w.incoming.take 4 := by
        rw [hw]
        exact (List.take_append_of_le_length h4).symm
      have hlen4 : (w.incoming.take 4).length = 4 := by
        rw [← hhead, List.length_take]
        exact Nat.min_eq_left h4
      have hbody : (w.incoming.drop 4).length = BigEndian.decode (w.incoming.take 4) := by
        have hlen : w.incoming.length = r.worker.needed := hfull
        rw [List.length_drop, hlen, hneeded, hhead, Nat.add_sub_cancel_left]
      have hsplit : r.worker.incoming ++ r.source.stream =
          w.incoming.take 4 ++ (w.incoming.drop 4 ++ rest.stream) := by
        rw [← hsame, ← List.append_assoc, List.take_append_drop]
      have hsize : ¬(BigEndian.decode (w.incoming.take 4) = 0 ∨
          frameMaxSize < BigEndian.decode (w.incoming.take 4)) := by
        rw [← hhead]
        omega
      have hparse := parseFrame_header hlen4 (w.incoming.drop 4 ++ rest.stream)
      rw [if_neg hsize, if_neg (by rw [List.length_append]; omega), List.take_left' hbody,
        List.drop_left' hbody] at hparse
      split
      · next hvalid =>
        rw [if_neg (by simp only [hvalid]; decide)] at hparse
        refine ⟨⟨⟨ho.wait, ho.sent⟩, trivial, fun hc => by cases hc⟩, ?_, hcloser _ _ rfl rfl rfl⟩
        rw [outcome_of_loops hl, hsplit, parseFrames_some hparse]
        rfl
      · next hinvalid =>
        rw [if_pos (by simpa using hinvalid)] at hparse
        refine ⟨⟨⟨ho.wait, ho.sent⟩, trivial, fun hc => by cases hc⟩, ?_, hcloser _ _ rfl rfl rfl⟩
        rw [outcome_done rfl, outcome_of_loops hl, hsplit, parseFrames_error hparse,
          List.append_nil]
  -- the field is not complete yet
  · next hpart =>
    have hc := w.endIo_continues
    refine ⟨hc.sound ?_ ho, ?_, hcloser _ _ rfl rfl rfl⟩
    · have hneed : w.needed = r.worker.needed := rfl
      rcases hi with ⟨h4, -⟩ | ⟨h4, -, hneeded, hmax⟩
      · exact .inl ⟨h4, by omega⟩
      · have hhead : w.incoming.take 4 = r.worker.incoming.take 4 := by
          rw [hw]
          exact List.take_append_of_le_length h4
        exact .inr ⟨by omega, by omega, by rw [hhead, hneed, hneeded], by rwa [hhead]⟩
    · rw [outcome_of_loops hc.loops, outcome_of_loops hl, hc.incoming, hsame]

theorem advances_read (h : r.worker.Sound) (hpc : r.worker.pc = .read) : Advances r r.step := by
  have hl : r.worker.loops = true := by simp [Worker.loops, hpc]
  have hi := h.input hl
  have hlt : r.worker.received < r.worker.needed := by
    rcases hi with ⟨h4, hr⟩ | ⟨-, hr, -⟩ <;> omega
  have hwait : r.worker.writeWait = .none := by
    have := h.pc
    rwa [Worker.PcOk, hpc] at this
  rcases r.source.read_cases (n := r.worker.needed - r.worker.received) (by omega) with
    ⟨bytes, rest, hread, -⟩ | ⟨write, rest, hread, hstream, hscript⟩ | ⟨rest, hread, hnil, hrest,
      hscript⟩
  · exact advances_data h hpc hread hi hlt
  · -- a retry
    have hs : r.step = { r with
        worker := { r.worker with readWait := if write then .pollout else .pollin }.endIo
        source := rest } := by
      simp only [step, hpc, hread]
      cases write <;> rfl
    rw [hs]
    have hc := Worker.endIo_continues
      { r.worker with readWait := if write then .pollout else .pollin }
    refine ⟨hc.sound hi ⟨fun hne => absurd hwait hne, h.output.sent⟩, ?_, ?_⟩
    · rw [outcome_of_loops hc.loops, outcome_of_loops hl, hc.incoming, hstream]
    · have hrank := rank_le { r with
        worker := { r.worker with readWait := if write then .pollout else .pollin }.endIo
        source := rest }
      dsimp only at hrank
      simp only [left, hc.output.1, hc.output.2, hstream]
      omega
  · -- the end of the stream
    have hs : r.step = { r with
        worker := { r.worker with
          pc := .done (if r.worker.received ≠ 0 then .error .ECONNRESET else .ok ()) }
        source := rest } := by
      simp only [step, hpc, hread]
      rfl
    rw [hs]
    refine ⟨⟨⟨h.output.wait, h.output.sent⟩, trivial, fun hc => by cases hc⟩, ?_, ?_⟩
    · rw [outcome_done rfl, outcome_of_loops hl, hnil, List.append_nil]
      by_cases h0 : r.worker.received = 0
      · have hin : r.worker.incoming = [] := List.length_eq_zero_iff.mp h0
        rw [if_neg (by simpa using h0), hin, parseFrames_none rfl, List.append_nil]
      · rw [if_pos h0]
        have hparse : parseFrame r.worker.incoming = .error .ECONNRESET := by
          rcases hi with ⟨-, hr⟩ | ⟨h4, hr, hneeded, hmax⟩
          · refine parseFrame_short ?_ hr
            intro hin
            exact h0 (by simp [Worker.received, hin])
          · have hlen4 : (r.worker.incoming.take 4).length = 4 := by
              rw [List.length_take]
              exact Nat.min_eq_left h4
            have hparse := parseFrame_header hlen4 (r.worker.incoming.drop 4)
            rw [List.take_append_drop] at hparse
            have hrec : r.worker.received = r.worker.incoming.length := rfl
            rw [hparse, if_neg (by omega), if_pos (by rw [List.length_drop]; omega)]
        rw [parseFrames_error hparse, List.append_nil]
    · simp only [left, rank, hpc, hrest, hnil]
      omega

theorem advances_step (h : r.worker.Sound) (hdone : ∀ e, r.worker.pc ≠ .done e) :
    Advances r r.step := by
  cases hpc : r.worker.pc with
  | drain => exact advances_drain h hpc
  | status => exact advances_status h hpc
  | take => exact advances_take h hpc
  | write => exact advances_write h hpc
  | read => exact advances_read h hpc
  | handle frame => exact advances_handle h hpc
  | poll => exact advances_poll h hpc
  | done e => exact absurd hpc (hdone e)

theorem step_of_done {e : Except Errno Unit} (h : r.worker.pc = .done e) : r.step = r := by
  simp only [step, h]

theorem sound_run (h : r.worker.Sound) (n : ℕ) : (r.run n).worker.Sound := by
  induction n with
  | zero => exact h
  | succ n ih =>
    rw [run, Function.iterate_succ_apply']
    by_cases hdone : ∃ e, (r.run n).worker.pc = .done e
    · obtain ⟨e, he⟩ := hdone
      change (r.run n).step.worker.Sound
      rw [step_of_done he]
      exact ih
    · exact (advances_step ih fun e he => hdone ⟨e, he⟩).sound

theorem run_outcome (h : r.worker.Sound) :
    ∃ n, (r.run n).worker.pc = .done r.outcome.2 ∧ (r.run n).frames = r.outcome.1 := by
  induction hm : 8 * r.left + r.rank using Nat.strong_induction_on generalizing r with
  | _ m ih =>
    by_cases hdone : ∃ e, r.worker.pc = .done e
    · obtain ⟨e, he⟩ := hdone
      rw [outcome_done he]
      exact ⟨0, he, rfl⟩
    · have hadv := advances_step h fun e he => hdone ⟨e, he⟩
      obtain ⟨n, hpc, hframes⟩ := ih _ (hm ▸ hadv.closer) hadv.sound rfl
      rw [hadv.outcome] at hpc hframes
      exact ⟨n + 1, hpc, hframes⟩

/-- A worker at the top of its loop, before a whole stream. -/
def start (stream : Bytes) (script : List ReadItem) (takes : List (Option OutgoingFrame))
    (writes : List WriteItem) : Reader where
  source := { stream, script }
  takes := takes
  writes := writes

theorem sound_start (stream : Bytes) (script : List ReadItem) (takes : List (Option OutgoingFrame))
    (writes : List WriteItem) : (start stream script takes writes).worker.Sound where
  output := ⟨fun h => absurd rfl h, fun h => absurd rfl h⟩
  pc := trivial
  input _ := .inl ⟨rfl, Nat.succ_pos 3⟩

end Reader

/-- Both readers return the records of the stream and end as it ends, however it is
cut up and whatever the worker writes meanwhile; the worker never reads past the
record it is in.  On the encodings of frames the result is those frames. -/
theorem frame_readers_agree (stream : Bytes) (script script' : List ReadItem)
    (takes : List (Option OutgoingFrame)) (writes : List WriteItem) :
    (∃ n, ((Reader.start stream script takes writes).run n).worker.pc =
        .done (parseFrames stream).2 ∧
      ((Reader.start stream script takes writes).run n).frames = (parseFrames stream).1) ∧
    receiveFrames { source := { stream, script := script' } } = parseFrames stream ∧
    (∀ n, ((Reader.start stream script takes writes).run n).worker.loops = true →
      ((Reader.start stream script takes writes).run n).worker.received <
        ((Reader.start stream script takes writes).run n).worker.needed ∧
      ((Reader.start stream script takes writes).run n).worker.needed ≤ 4 + frameMaxSize) ∧
    (∀ frames : List OutgoingFrame, (∀ f ∈ frames, f.payload.length ≤ frameMaxSize - 1) →
      stream = frames.flatMap (fun f => encodeFrame f.type f.payload) →
      parseFrames stream = (frames.map fun f => f.type.toByte :: f.payload, .ok ())) := by
  have hsound := Reader.sound_start stream script takes writes
  refine ⟨?_, receiveFrames_eq _ rfl, ?_, ?_⟩
  · have houtcome : (Reader.start stream script takes writes).outcome = parseFrames stream :=
      Reader.outcome_of_loops rfl
    rw [← houtcome]
    exact Reader.run_outcome hsound
  · intro n hl
    have hmax : 4 ≤ 4 + frameMaxSize := Nat.le_add_right _ _
    rcases (Reader.sound_run hsound n).input hl with ⟨h4, hr⟩ | ⟨-, hr, hneeded, hle⟩
    · omega
    · omega
  · rintro frames hlen rfl
    exact parseFrames_encodeFrames frames hlen

end CipherChat
