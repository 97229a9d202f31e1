import CipherChat.Worker

/-!
# Reading frames

The two readers of length-prefixed frames: `receive_frame` with its blocking
`recv_all` (`common.c`), and the input half of the worker loop.  Both read from a TLS
stream that hands out its bytes in pieces of any size, asks for retries in between,
and then reports the end.
-/

namespace CipherChat

/-- What the TLS layer does at one call of `SSL_read_ex`, while it has the choice. -/
inductive ReadItem
  /-- Deliver at most `k + 1` bytes. -/
  | split (k : ℕ)
  /-- Ask for a retry: `SSL_ERROR_WANT_WRITE` or `SSL_ERROR_WANT_READ`. -/
  | want (write : Bool)
  deriving DecidableEq, Repr

/-- The bytes still to come, and how the next calls cut them up.  When the script is
over a call delivers all it can. -/
structure TlsSource where
  stream : Bytes
  script : List ReadItem
  deriving DecidableEq, Repr

/-- `SSL_read_ex` with `SSL_get_error` and `errno`. -/
inductive TlsAnswer
  | data (bytes : Bytes)
  | zeroReturn
  | want (write : Bool) (errno : Option Errno)
  | failed (errno : Option Errno)
  deriving DecidableEq, Repr

namespace TlsSource

/-- Deliver at most `n` bytes, or the end of the stream. -/
def deliver (stream : Bytes) (n : ℕ) (script : List ReadItem) : TlsAnswer × TlsSource :=
  if stream = [] then (.zeroReturn, { stream, script })
  else (.data (stream.take n), { stream := stream.drop n, script })

def read (c : TlsSource) (n : ℕ) : TlsAnswer × TlsSource :=
  match c.script with
  | .want write :: rest => (.want write none, { c with script := rest })
  | .split k :: rest => deliver c.stream (min n (k + 1)) rest
  | [] => deliver c.stream n []

theorem read_cases (c : TlsSource) {n : ℕ} (hn : 0 < n) :
    (∃ bytes rest, c.read n = (.data bytes, rest) ∧ c.stream = bytes ++ rest.stream ∧
      0 < bytes.length ∧ bytes.length ≤ n ∧ rest.script.length ≤ c.script.length) ∨
    (∃ write rest, c.read n = (.want write none, rest) ∧ rest.stream = c.stream ∧
      rest.script.length + 1 = c.script.length) ∨
    (∃ rest, c.read n = (.zeroReturn, rest) ∧ c.stream = [] ∧ rest.stream = [] ∧
      rest.script.length ≤ c.script.length) := by
  have hdeliver : ∀ k script, 0 < k → k ≤ n → script.length ≤ c.script.length →
      (∃ bytes rest, deliver c.stream k script = (.data bytes, rest) ∧
        c.stream = bytes ++ rest.stream ∧ 0 < bytes.length ∧ bytes.length ≤ n ∧
        rest.script.length ≤ c.script.length) ∨
      (∃ rest, deliver c.stream k script = (.zeroReturn, rest) ∧ c.stream = [] ∧
        rest.stream = [] ∧ rest.script.length ≤ c.script.length) := by
    intro k script hk hkn hlen
    by_cases hs : c.stream = []
    · exact .inr ⟨_, if_pos hs, hs, hs, hlen⟩
    · refine .inl ⟨_, _, if_neg hs, (List.take_append_drop k c.stream).symm, ?_, ?_, hlen⟩
      · have := List.length_pos_iff.mpr hs
        rw [List.length_take]
        omega
      · rw [List.length_take]
        omega
  cases hscript : c.script with
  | nil =>
    rcases hdeliver n [] hn le_rfl (by simp) with h | h
    · left
      simpa [read, hscript] using h
    · right
      right
      simpa [read, hscript] using h
  | cons item rest =>
    cases item with
    | want write =>
      right
      left
      exact ⟨write, { c with script := rest }, by simp [read, hscript], rfl, by simp⟩
    | split k =>
      rcases hdeliver (min n (k + 1)) rest (by omega) (by omega) (by simp [hscript]) with h | h
      · left
        simpa [read, hscript] using h
      · right
        right
        simpa [read, hscript] using h

theorem read_data {c rest : TlsSource} {n : ℕ} {bytes : Bytes} (hn : 0 < n)
    (h : c.read n = (.data bytes, rest)) : c.stream = bytes ++ rest.stream ∧
      0 < bytes.length ∧ bytes.length ≤ n ∧ rest.script.length ≤ c.script.length := by
  rcases c.read_cases hn with ⟨b, r, hr, hrest⟩ | ⟨w, r, hr, -⟩ | ⟨r, hr, -⟩
  · rw [h] at hr
    cases hr
    exact hrest
  · rw [h] at hr
    cases hr
  · rw [h] at hr
    cases hr

theorem read_want {c rest : TlsSource} {n : ℕ} {write : Bool} {errno : Option Errno} (hn : 0 < n)
    (h : c.read n = (.want write errno, rest)) :
    errno = none ∧ rest.stream = c.stream ∧ rest.script.length + 1 = c.script.length := by
  rcases c.read_cases hn with ⟨b, r, hr, -⟩ | ⟨w, r, hr, hrest⟩ | ⟨r, hr, -⟩
  · rw [h] at hr
    cases hr
  · rw [h] at hr
    cases hr
    exact ⟨rfl, hrest⟩
  · rw [h] at hr
    cases hr

theorem read_zeroReturn {c rest : TlsSource} {n : ℕ} (hn : 0 < n)
    (h : c.read n = (.zeroReturn, rest)) : c.stream = [] ∧ rest.stream = [] := by
  rcases c.read_cases hn with ⟨b, r, hr, -⟩ | ⟨w, r, hr, -⟩ | ⟨r, hr, hrest⟩
  · rw [h] at hr
    cases hr
  · rw [h] at hr
    cases hr
  · rw [h] at hr
    cases hr
    exact ⟨hrest.1, hrest.2.1⟩

theorem read_failed {c rest : TlsSource} {n : ℕ} {errno : Option Errno} (hn : 0 < n) :
    c.read n ≠ (.failed errno, rest) := by
  intro h
  rcases c.read_cases hn with ⟨b, r, hr, -⟩ | ⟨w, r, hr, -⟩ | ⟨r, hr, -⟩ <;>
    rw [h] at hr <;> cases hr

end TlsSource

structure Connection where
  source : TlsSource
  tlsIoFailed : Bool := false

/-- The loop of `recv_all`. -/
def recvLoop (c : Connection) (length : ℕ) (received : Bytes) : Except Errno Bytes × Connection :=
  if _ : received.length < length then
    match _ : c.source.read (length - received.length) with
    | (.data bytes, source) => recvLoop { c with source } length (received ++ bytes)
    | (.zeroReturn, source) => (.ok received, { c with source })
    | (.want write errno, source) =>
      -- on a blocking socket `EAGAIN` is a timeout
      if errno = some .EAGAIN then
        (.error .EAGAIN, { source, tlsIoFailed := c.tlsIoFailed || write })
      else recvLoop { c with source } length received
    | (.failed errno, source) => (.error (errno.getD .ECONNRESET), { source, tlsIoFailed := true })
  else (.ok received, c)
termination_by (c.source.script.length + (length - received.length))
decreasing_by
  · next hread =>
    have := TlsSource.read_data (by omega) hread
    rw [List.length_append]
    omega
  · next hread _ =>
    have := TlsSource.read_want (by omega) hread
    omega

/-- `recv_all`: the bytes received, fewer than asked for only at the end of the stream. -/
def recvAll (c : Connection) (length : ℕ) : Except Errno Bytes × Connection :=
  if c.tlsIoFailed then (.error .ECONNRESET, c) else recvLoop c length []

/-- `receive_frame`: a frame, or `none` at a clean end. -/
def receiveFrame (c : Connection) (capacity : ℕ) : Except Errno (Option Bytes) × Connection :=
  if capacity = 0 then (.error .EINVAL, c)
  else
    match recvAll c 4 with
    | (.error e, c) => (.error e, c)
    | (.ok header, c) =>
      if header.length = 0 then (.ok none, c)
      else if header.length ≠ 4 then (.error .ECONNRESET, c)
      else
        let frameLength := BigEndian.decode header
        if frameLength = 0 ∨ frameMaxSize < frameLength ∨ capacity < frameLength then
          (.error .EMSGSIZE, c)
        else
          match recvAll c frameLength with
          | (.error e, c) => (.error e, c)
          | (.ok frame, c) =>
            if frame.length ≠ frameLength then (.error .ECONNRESET, c)
            else if isValidFrameType (frame.headD 0) = false then (.error .EPROTO, c)
            else (.ok (some frame), c)

theorem recvLoop_eq (c : Connection) (length : ℕ) (received : Bytes) :
    ∃ source, recvLoop c length received =
        (.ok (received ++ c.source.stream.take (length - received.length)), { c with source }) ∧
      source.stream = c.source.stream.drop (length - received.length) := by
  fun_induction recvLoop c length received with
  | case1 c received hlen bytes source hread ih =>
    obtain ⟨hstream, hpos, hle, -⟩ := TlsSource.read_data (by omega) hread
    obtain ⟨rest, hrest, hdrop⟩ := ih
    refine ⟨rest, ?_, ?_⟩
    · rw [hrest, hstream, List.take_append, List.take_of_length_le hle, List.length_append,
        List.append_assoc, Nat.sub_sub]
    · rw [hdrop, hstream, List.drop_append, List.drop_eq_nil_of_le hle, List.length_append,
        List.nil_append, Nat.sub_sub]
  | case2 c received hlen source hread =>
    obtain ⟨hnil, hnil'⟩ := TlsSource.read_zeroReturn (by omega) hread
    exact ⟨source, by rw [hnil, List.take_nil, List.append_nil], by rw [hnil, hnil', List.drop_nil]⟩
  | case3 c received hlen write source hread =>
    have := (TlsSource.read_want (by omega) hread).1
    simp at this
  | case4 c received hlen write errno source hread herrno ih =>
    obtain ⟨-, hstream, -⟩ := TlsSource.read_want (by omega) hread
    rw [hstream] at ih
    exact ih
  | case5 c received hlen errno source hread =>
    exact absurd hread (TlsSource.read_failed (by omega))
  | case6 c received hlen =>
    have h0 : length - received.length = 0 := by omega
    exact ⟨c.source, by rw [h0, List.take_zero, List.append_nil], by rw [h0, List.drop_zero]⟩

theorem recvAll_eq {c : Connection} (hc : c.tlsIoFailed = false) (length : ℕ) :
    ∃ source, recvAll c length = (.ok (c.source.stream.take length), { c with source }) ∧
      source.stream = c.source.stream.drop length := by
  rw [recvAll, if_neg (by simp [hc])]
  exact recvLoop_eq c length []

/-- The first record of a stream and what follows it; `none` for the empty stream. -/
def parseFrame (stream : Bytes) : Except Errno (Option (Bytes × Bytes)) :=
  if stream = [] then .ok none
  else if stream.length < 4 then .error .ECONNRESET
  else
    let length := BigEndian.decode (stream.take 4)
    if length = 0 ∨ frameMaxSize < length then .error .EMSGSIZE
    else if (stream.drop 4).length < length then .error .ECONNRESET
    else
      let frame := (stream.drop 4).take length
      if isValidFrameType (frame.headD 0) = false then .error .EPROTO
      else .ok (some (frame, (stream.drop 4).drop length))

theorem parseFrame_short {stream : Bytes} (hne : stream ≠ []) (h : stream.length < 4) :
    parseFrame stream = .error .ECONNRESET := by
  rw [parseFrame, if_neg hne, if_pos h]

theorem parseFrame_header {header : Bytes} (h : header.length = 4) (rest : Bytes) :
    parseFrame (header ++ rest) =
      if BigEndian.decode header = 0 ∨ frameMaxSize < BigEndian.decode header then .error .EMSGSIZE
      else if rest.length < BigEndian.decode header then .error .ECONNRESET
      else if isValidFrameType ((rest.take (BigEndian.decode header)).headD 0) = false then
        .error .EPROTO
      else .ok (some (rest.take (BigEndian.decode header),
        rest.drop (BigEndian.decode header))) := by
  have hne : header ++ rest ≠ [] := by
    intro hnil
    rw [(List.append_eq_nil_iff.mp hnil).1] at h
    cases h
  rw [parseFrame, if_neg hne, if_neg (by rw [List.length_append]; omega), List.take_left' h,
    List.drop_left' h]

theorem parseFrame_some {stream frame rest : Bytes}
    (h : parseFrame stream = .ok (some (frame, rest))) :
    rest.length < stream.length := by
  unfold parseFrame at h
  split at h
  · cases h
  split at h
  · cases h
  dsimp only at h
  split at h
  · cases h
  split at h
  · cases h
  split at h
  · cases h
  cases h
  simp only [List.length_drop]
  omega

/-- The stream as `[4-byte big-endian length][type][payload]` records: the frames, and
how it ends. -/
def parseFrames (stream : Bytes) : List Bytes × Except Errno Unit :=
  match _ : parseFrame stream with
  | .error e => ([], .error e)
  | .ok none => ([], .ok ())
  | .ok (some (frame, rest)) => (frame :: (parseFrames rest).1, (parseFrames rest).2)
termination_by stream.length
decreasing_by all_goals exact parseFrame_some ‹_›

theorem parseFrames_error {stream : Bytes} {e : Errno} (h : parseFrame stream = .error e) :
    parseFrames stream = ([], .error e) := by
  rw [parseFrames]
  split <;> rename_i hp <;> rw [h] at hp <;> cases hp
  rfl

theorem parseFrames_none {stream : Bytes} (h : parseFrame stream = .ok none) :
    parseFrames stream = ([], .ok ()) := by
  rw [parseFrames]
  split <;> rename_i hp <;> rw [h] at hp <;> cases hp

theorem parseFrames_some {stream frame rest : Bytes}
    (h : parseFrame stream = .ok (some (frame, rest))) :
    parseFrames stream = (frame :: (parseFrames rest).1, (parseFrames rest).2) := by
  rw [parseFrames]
  split <;> rename_i hp <;> rw [h] at hp <;> cases hp
  rfl

theorem receiveFrame_eq {c : Connection} (hc : c.tlsIoFailed = false) :
    ∃ c', receiveFrame c frameMaxSize =
        ((parseFrame c.source.stream).map (Option.map Prod.fst), c') ∧
      ∀ frame rest, parseFrame c.source.stream = .ok (some (frame, rest)) →
        c'.tlsIoFailed = false ∧ c'.source.stream = rest := by
  obtain ⟨src, hheader, hsrc⟩ := recvAll_eq hc 4
  unfold receiveFrame
  rw [if_neg (by decide), hheader]
  dsimp only
  set stream := c.source.stream with hstream
  unfold parseFrame
  by_cases hnil : stream = []
  · rw [if_pos (by simp [hnil]), if_pos hnil]
    exact ⟨_, rfl, fun _ _ h => by cases h⟩
  have hpos := List.length_pos_iff.mpr hnil
  rw [if_neg (by rw [List.length_take]; omega), if_neg hnil]
  by_cases hshort : stream.length < 4
  · rw [if_pos (by rw [List.length_take]; omega), if_pos hshort]
    exact ⟨_, rfl, fun _ _ h => by cases h⟩
  rw [if_neg (by rw [List.length_take]; omega), if_neg hshort]
  by_cases hsize : BigEndian.decode (stream.take 4) = 0 ∨
      frameMaxSize < BigEndian.decode (stream.take 4)
  · rw [if_pos (by tauto), if_pos hsize]
    exact ⟨_, rfl, fun _ _ h => by cases h⟩
  rw [if_neg (by tauto), if_neg hsize]
  obtain ⟨src', hbody, hsrc'⟩ := recvAll_eq (c := { c with source := src }) hc
    (BigEndian.decode (stream.take 4))
  rw [hbody, hsrc]
  dsimp only
  by_cases hbodyLen : (stream.drop 4).length < BigEndian.decode (stream.take 4)
  · rw [if_pos (by rw [List.length_take]; omega), if_pos hbodyLen]
    exact ⟨_, rfl, fun _ _ h => by cases h⟩
  rw [if_neg (by rw [List.length_take]; omega), if_neg hbodyLen]
  split
  · exact ⟨_, rfl, fun _ _ h => by cases h⟩
  · refine ⟨_, rfl, fun frame rest h => ?_⟩
    cases h
    exact ⟨hc, by rw [hsrc', hsrc]⟩

theorem receiveFrame_some {c c' : Connection} {frame : Bytes}
    (h : receiveFrame c frameMaxSize = (.ok (some frame), c')) :
    c'.source.stream.length < c.source.stream.length := by
  cases hc : c.tlsIoFailed with
  | true =>
    rw [receiveFrame, if_neg (by decide), recvAll, if_pos hc] at h
    cases h
  | false =>
    obtain ⟨c₁, h₁, hrest⟩ := receiveFrame_eq hc
    rw [h] at h₁
    obtain ⟨hparse, rfl⟩ := Prod.mk.inj h₁
    cases hp : parseFrame c.source.stream with
    | error e =>
      rw [hp] at hparse
      cases hparse
    | ok r =>
      cases r with
      | none =>
        rw [hp] at hparse
        cases hparse
      | some fr =>
        rw [(hrest fr.1 fr.2 hp).2]
        exact parseFrame_some hp

/-- `receive_frame` with capacity `FRAME_MAX_SIZE`, until it returns 0 or -1. -/
def receiveFrames (c : Connection) : List Bytes × Except Errno Unit :=
  match _ : receiveFrame c frameMaxSize with
  | (.error e, _) => ([], .error e)
  | (.ok none, _) => ([], .ok ())
  | (.ok (some frame), c') => (frame :: (receiveFrames c').1, (receiveFrames c').2)
termination_by c.source.stream.length
decreasing_by all_goals exact receiveFrame_some ‹_›

theorem receiveFrames_eq (c : Connection) (hc : c.tlsIoFailed = false) :
    receiveFrames c = parseFrames c.source.stream := by
  fun_induction receiveFrames c with
  | case1 c e c' h =>
    obtain ⟨c₁, h₁, -⟩ := receiveFrame_eq hc
    rw [h] at h₁
    cases hp : parseFrame c.source.stream with
    | error e' =>
      rw [hp] at h₁
      cases h₁
      rw [parseFrames_error hp]
    | ok r =>
      rw [hp] at h₁
      cases h₁
  | case2 c c' h =>
    obtain ⟨c₁, h₁, -⟩ := receiveFrame_eq hc
    rw [h] at h₁
    cases hp : parseFrame c.source.stream with
    | error e' =>
      rw [hp] at h₁
      cases h₁
    | ok r =>
      rw [hp] at h₁
      cases r with
      | none => rw [parseFrames_none hp]
      | some fr => cases h₁
  | case3 c frame c' h ih =>
    obtain ⟨c₁, h₁, hrest⟩ := receiveFrame_eq hc
    rw [h] at h₁
    cases hp : parseFrame c.source.stream with
    | error e' =>
      rw [hp] at h₁
      cases h₁
    | ok r =>
      rw [hp] at h₁
      cases r with
      | none => cases h₁
      | some fr =>
        obtain ⟨hf, rfl⟩ := Prod.mk.inj h₁
        obtain ⟨hfailed, hstream⟩ := hrest _ _ hp
        cases hf
        rw [parseFrames_some hp, ih hfailed, hstream]

theorem parseFrame_encodeFrame (type : FrameType) (payload rest : Bytes)
    (hlen : payload.length ≤ frameMaxSize - 1) :
    parseFrame (encodeFrame type payload ++ rest) = .ok (some (type.toByte :: payload, rest)) := by
  have hmax := frameMaxSize_eq
  have hdecode : BigEndian.decode (BigEndian.encode 4 (1 + payload.length)) = 1 + payload.length :=
    BigEndian.decode_encode (by omega)
  have hbody : (type.toByte :: payload).length = 1 + payload.length := by
    rw [List.length_cons, Nat.add_comm]
  have hvalid : isValidFrameType type.toByte = true := by simp [isValidFrameType]
  rw [encodeFrame, List.append_assoc, parseFrame_header (BigEndian.encode_length 4 _), hdecode,
    List.take_left' hbody, List.drop_left' hbody, if_neg (by omega),
    if_neg (by rw [List.length_append]; omega), if_neg (by simp [hvalid])]

theorem parseFrames_encodeFrames (frames : List OutgoingFrame)
    (hlen : ∀ f ∈ frames, f.payload.length ≤ frameMaxSize - 1) :
    parseFrames (frames.flatMap fun f => encodeFrame f.type f.payload) =
      (frames.map fun f => f.type.toByte :: f.payload, .ok ()) := by
  induction frames with
  | nil => exact parseFrames_none rfl
  | cons f frames ih =>
    rw [List.flatMap_cons, parseFrames_some (parseFrame_encodeFrame f.type f.payload _
      (hlen f List.mem_cons_self)), ih fun g hg => hlen g (List.mem_cons_of_mem f hg)]
    rfl

end CipherChat
