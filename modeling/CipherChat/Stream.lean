import CipherChat.Calls

/-!
# Transfers, read off the log

`relayed` is what the server queued under one outbound id, and `Source` what a client
sent under one of its own ids.  `Relays` builds up the streams BEGIN CHUNK* (END | ERROR)
frame by frame, together with what they announce and carry.
-/

namespace CipherChat

/-- The frame that an event queues, with its client and its receiver. -/
def Event.queues : Event → Option (ClientId × ClientId × FrameType × Bytes)
  | .did c (.queueFrame r type payload) (.ok ()) => some (c, r, type, payload)
  | _ => none

theorem Event.queues_eq_some {e : Event} {c r : ClientId} {type : FrameType} {payload : Bytes}
    (h : e.queues = some (c, r, type, payload)) :
    e = .did c (.queueFrame r type payload) (.ok ()) := by
  unfold queues at h
  split at h
  · cases h
    rfl
  · cases h

/-- The file frame of transfer `o` that an event queues, with its receiver. -/
def Event.relayed (o : UInt32) : Event → Option (ClientId × Bytes)
  | .did _ (.queueFrame r type payload) (.ok ()) =>
    if type.isFile ∧ readTransferId (type.toByte :: payload) = some o then
      some (r, type.toByte :: payload)
    else none
  | _ => none

def relayed (log : List Event) (o : UInt32) : List (ClientId × Bytes) :=
  log.filterMap (Event.relayed o)

theorem relayed_concat (log : List Event) (e : Event) (o : UInt32) :
    relayed (log ++ [e]) o = relayed log o ++ (e.relayed o).toList := by
  rw [relayed, List.filterMap_append, List.filterMap_cons]
  cases e.relayed o <;> rfl

theorem relayed_append_of_none {log evs : List Event} {o : UInt32}
    (h : ∀ e ∈ evs, e.relayed o = none) : relayed (log ++ evs) o = relayed log o := by
  rw [relayed, List.filterMap_append, List.filterMap_eq_nil_iff.mpr h, List.append_nil]
  rfl

/-- The streams that the frames of transfer `o` can form. -/
inductive Stream
  | fresh
  | open (target : ClientId) (begin_ : FileBeginFrame) (chunks : List Bytes)
  | closed (target : ClientId) (begin_ : FileBeginFrame) (chunks : List Bytes) (complete : Bool)

inductive Relays (o : UInt32) : List (ClientId × Bytes) → Stream → Prop
  | fresh : Relays o [] .fresh
  | opened {r : ClientId} {frame : Bytes} {b : FileBeginFrame} (h : decodeBegin frame = some b)
      (ho : b.transferId = o) : Relays o [(r, frame)] (.open r b [])
  | chunk {fs : List (ClientId × Bytes)} {r : ClientId} {frame data : Bytes} {b : FileBeginFrame}
      {chunks : List Bytes} (hs : Relays o fs (.open r b chunks))
      (h : decodeChunk frame = some { transferId := o, data })
      (hle : chunks.flatten.length + data.length ≤ b.fileSize.toNat) :
      Relays o (fs ++ [(r, frame)]) (.open r b (chunks ++ [data]))
  | ended {fs : List (ClientId × Bytes)} {r : ClientId} {frame : Bytes} {b : FileBeginFrame}
      {chunks : List Bytes} (hs : Relays o fs (.open r b chunks))
      (h : decodeControl frame .fileEnd = .ok o)
      (hn : chunks.flatten.length = b.fileSize.toNat) :
      Relays o (fs ++ [(r, frame)]) (.closed r b chunks true)
  | failed {fs : List (ClientId × Bytes)} {r : ClientId} {frame : Bytes} {b : FileBeginFrame}
      {chunks : List Bytes} (hs : Relays o fs (.open r b chunks))
      (h : decodeControl frame .fileError = .ok o) :
      Relays o (fs ++ [(r, frame)]) (.closed r b chunks false)

/-- A prefix of BEGIN(size n) CHUNK* (END | ERROR) under transfer id `o`: the chunks sum
to at most `n`, and to exactly `n` when END is there. -/
def RelayShape (o : UInt32) (frames : List Bytes) : Prop :=
  frames = [] ∨ ∃ begin_ b chunks, ∃ datas : List Bytes, ∃ last, frames = begin_ :: chunks ++ last ∧
    decodeBegin begin_ = some b ∧ b.transferId = o ∧
    chunks.map decodeChunk = datas.map (fun data => some { transferId := o, data }) ∧
    (datas.map List.length).sum ≤ b.fileSize.toNat ∧
    (last = [] ∨ ∃ frame, last = [frame] ∧
      (decodeControl frame .fileEnd = .ok o ∧ (datas.map List.length).sum = b.fileSize.toNat ∨
        decodeControl frame .fileError = .ok o))

theorem Relays.open_shape {o : UInt32} {fs : List (ClientId × Bytes)} {st : Stream}
    (h : Relays o fs st) {r : ClientId} {b : FileBeginFrame} {datas : List Bytes}
    (hst : st = .open r b datas) : (∀ f ∈ fs, f.1 = r) ∧ ∃ begin_ chunks,
      fs.map Prod.snd = begin_ :: chunks ∧ decodeBegin begin_ = some b ∧ b.transferId = o ∧
      chunks.map decodeChunk = datas.map (fun data => some { transferId := o, data }) ∧
      (datas.map List.length).sum ≤ b.fileSize.toNat := by
  induction h generalizing r b datas with
  | fresh => cases hst
  | @opened r frame b hb ho =>
    cases hst
    refine ⟨fun f hf => ?_, frame, [], rfl, hb, ho, rfl, Nat.zero_le _⟩
    rw [List.mem_singleton.mp hf]
  | @chunk fs r frame data b chunks hs hd hle ih =>
    cases hst
    obtain ⟨hr, begin_, rest, hfs, hb, ho, hrest, -⟩ := ih rfl
    refine ⟨?_, begin_, rest ++ [frame], ?_, hb, ho, ?_, ?_⟩
    · intro f hf
      rcases List.mem_append.mp hf with hf | hf
      · exact hr f hf
      · rw [List.mem_singleton.mp hf]
    · rw [List.map_append, hfs]
      rfl
    · rw [List.map_append, hrest, List.map_append, List.map_singleton, List.map_singleton, hd]
    · rw [List.map_append, List.sum_append, ← List.length_flatten, List.map_singleton,
        List.sum_singleton]
      exact hle
  | ended => cases hst
  | failed => cases hst

theorem Relays.shape {o : UInt32} {fs : List (ClientId × Bytes)} {st : Stream}
    (h : Relays o fs st) :
    ∃ r, (∀ f ∈ fs, f.1 = r) ∧ RelayShape o (fs.map Prod.snd) := by
  have hclosed : ∀ {fs : List (ClientId × Bytes)} {r : ClientId} {frame : Bytes}
      {b : FileBeginFrame} {datas : List Bytes}, Relays o fs (.open r b datas) →
      (decodeControl frame .fileEnd = .ok o ∧ (datas.map List.length).sum = b.fileSize.toNat ∨
        decodeControl frame .fileError = .ok o) →
      ∃ r', (∀ f ∈ fs ++ [(r, frame)], f.1 = r') ∧
        RelayShape o ((fs ++ [(r, frame)]).map Prod.snd) := by
    intro fs r frame b datas hs hlast
    obtain ⟨hr, begin_, chunks, hfs, hb, ho, hdatas, hsum⟩ := hs.open_shape rfl
    refine ⟨r, fun f hf => ?_, .inr ⟨begin_, b, chunks, datas, [frame], ?_, hb, ho, hdatas, hsum,
      .inr ⟨frame, rfl, hlast⟩⟩⟩
    · rcases List.mem_append.mp hf with hf | hf
      · exact hr f hf
      · rw [List.mem_singleton.mp hf]
    · rw [List.map_append, hfs]
      rfl
  have hopen : ∀ {fs : List (ClientId × Bytes)} {r : ClientId} {b : FileBeginFrame}
      {datas : List Bytes}, Relays o fs (.open r b datas) →
      ∃ r', (∀ f ∈ fs, f.1 = r') ∧ RelayShape o (fs.map Prod.snd) := by
    intro fs r b datas hs
    obtain ⟨hr, begin_, chunks, hfs, hb, ho, hdatas, hsum⟩ := hs.open_shape rfl
    exact ⟨r, hr, .inr ⟨begin_, b, chunks, datas, [], by rw [hfs, List.append_nil], hb, ho,
      hdatas, hsum, .inl rfl⟩⟩
  cases h with
  | fresh => exact ⟨0, fun f hf => absurd hf List.not_mem_nil, .inl rfl⟩
  | opened hb ho => exact hopen (.opened hb ho)
  | chunk hs hd hle => exact hopen (.chunk hs hd hle)
  | ended hs hf hn => exact hclosed hs (.inl ⟨hf, by rw [← List.length_flatten, hn]⟩)
  | failed hs hf => exact hclosed hs (.inr hf)

theorem Relays.concat_cases {o : UInt32} {fs : List (ClientId × Bytes)} {f : ClientId × Bytes}
    {st : Stream} (h : Relays o (fs ++ [f]) st) :
    (fs = [] ∧ ∃ b, decodeBegin f.2 = some b ∧ b.transferId = o ∧ st = .open f.1 b []) ∨
    ∃ b chunks, Relays o fs (.open f.1 b chunks) ∧
      ((∃ data, decodeChunk f.2 = some { transferId := o, data } ∧
          chunks.flatten.length + data.length ≤ b.fileSize.toNat ∧
          st = .open f.1 b (chunks ++ [data])) ∨
        (decodeControl f.2 .fileEnd = .ok o ∧ st = .closed f.1 b chunks true) ∨
        (decodeControl f.2 .fileError = .ok o ∧ st = .closed f.1 b chunks false)) := by
  generalize hl : fs ++ [f] = l at h
  cases h with
  | fresh =>
    cases (List.append_eq_nil_iff.mp hl).2
  | @opened r frame b hb ho =>
    have hnil : fs ++ [f] = [] ++ [(r, frame)] := hl
    obtain ⟨rfl, hf⟩ := List.append_inj' hnil rfl
    obtain rfl := List.singleton_inj.mp hf
    exact .inl ⟨rfl, _, hb, ho, rfl⟩
  | chunk hs hd hle =>
    obtain ⟨rfl, hf⟩ := List.append_inj' hl rfl
    obtain rfl := List.singleton_inj.mp hf
    exact .inr ⟨_, _, hs, .inl ⟨_, hd, hle, rfl⟩⟩
  | ended hs hend hn =>
    obtain ⟨rfl, hf⟩ := List.append_inj' hl rfl
    obtain rfl := List.singleton_inj.mp hf
    exact .inr ⟨_, _, hs, .inr (.inl ⟨hend, rfl⟩)⟩
  | failed hs herror =>
    obtain ⟨rfl, hf⟩ := List.append_inj' hl rfl
    obtain rfl := List.singleton_inj.mp hf
    exact .inr ⟨_, _, hs, .inr (.inr ⟨herror, rfl⟩)⟩

theorem Relays.of_append {o : UInt32} {fs gs : List (ClientId × Bytes)} {st : Stream}
    (h : Relays o (fs ++ gs) st) : ∃ st', Relays o fs st' := by
  induction gs using List.reverseRecOn generalizing st with
  | nil =>
    rw [List.append_nil] at h
    exact ⟨st, h⟩
  | append_singleton gs g ih =>
    rw [← List.append_assoc] at h
    rcases h.concat_cases with ⟨hnil, -⟩ | ⟨b, chunks, hopen, -⟩
    · obtain ⟨rfl, -⟩ := List.append_eq_nil_iff.mp hnil
      exact ⟨_, .fresh⟩
    · exact ih hopen

theorem Relays.open_unique {o : UInt32} {fs : List (ClientId × Bytes)} {r r' : ClientId}
    {b b' : FileBeginFrame} {chunks chunks' : List Bytes} (h : Relays o fs (.open r b chunks))
    (h' : Relays o fs (.open r' b' chunks')) : b = b' ∧ chunks = chunks' := by
  obtain ⟨-, begin_, rest, hfs, hb, -, hchunks, -⟩ := h.open_shape rfl
  obtain ⟨-, begin', rest', hfs', hb', -, hchunks', -⟩ := h'.open_shape rfl
  rw [hfs] at hfs'
  obtain ⟨rfl, rfl⟩ := List.cons.inj hfs'
  refine ⟨Option.some.inj (hb.symm.trans hb'), ?_⟩
  refine (List.map_injective_iff.mpr ?_) (hchunks.symm.trans hchunks')
  intro data data' hdata
  exact congrArg FileChunkFrame.data (Option.some.inj hdata)

theorem Relays.ended_cases {o : UInt32} {fs gs : List (ClientId × Bytes)} {r : ClientId}
    {frame : Bytes} {st : Stream} (h : Relays o (fs ++ (r, frame) :: gs) st)
    (hend : decodeControl frame .fileEnd = .ok o) :
    ∃ b chunks, Relays o fs (.open r b chunks) ∧ gs = [] ∧ st = .closed r b chunks true := by
  have hhead := (decodeControl_ok hend).1
  have hplain : ∀ {t : FrameType}, frame.head? = some t.toByte → t = .fileEnd := by
    intro t ht
    exact FrameType.toByte_injective (Option.some.inj (ht.symm.trans hhead))
  rcases List.eq_nil_or_concat' gs with rfl | ⟨gs, g, rfl⟩
  · rcases h.concat_cases with ⟨-, b, hb, -⟩ | ⟨b, chunks, hopen, hlast⟩
    · cases hplain (decodeBegin_some hb).1
    · rcases hlast with ⟨data, hdata, -⟩ | ⟨-, hst⟩ | ⟨herror, -⟩
      · cases hplain (decodeChunk_some hdata).1
      · exact ⟨b, chunks, hopen, rfl, hst⟩
      · cases hplain (decodeControl_ok herror).1
  · -- a stream that goes on is open, and has only its BEGIN and chunks
    rw [← List.cons_append, ← List.append_assoc] at h
    rcases h.concat_cases with ⟨hnil, -⟩ | ⟨b, chunks, hopen, -⟩
    · cases (List.append_eq_nil_iff.mp hnil).2
    · obtain ⟨-, begin_, rest, hfs, hb, -, hchunks, -⟩ := hopen.open_shape rfl
      have hmem : frame ∈ begin_ :: rest := by
        rw [← hfs]
        exact List.mem_map_of_mem (f := Prod.snd) (a := (r, frame)) (by simp)
      rcases List.mem_cons.mp hmem with rfl | hmem
      · cases hplain (decodeBegin_some hb).1
      · have hdecode := List.mem_map_of_mem (f := decodeChunk) hmem
        rw [hchunks] at hdecode
        obtain ⟨data, -, hdata⟩ := List.mem_map.mp hdecode
        cases hplain (decodeChunk_some hdata.symm).1

/-- What a frame adds to the transfer `src`, well formed or not: the data of a chunk, or `none`
for the END or the ERROR after it. -/
def transferPart (src : UInt32) (frame : Bytes) : Option (Option Bytes) :=
  if readTransferId frame = some src ∧ frame.length ≤ frameMaxSize then
    match frame.head?.bind FrameType.ofByte with
    | some .fileChunk => some (some (frame.drop (1 + 4)))
    | some .fileEnd | some .fileError => some none
    | _ => none
  else none

theorem transferPart_of_id {src : UInt32} {frame : Bytes} (h : readTransferId frame ≠ some src) :
    transferPart src frame = none := by
  rw [transferPart, if_neg fun hid => h hid.1]

theorem transferPart_of_head {frame : Bytes}
    (h : (frame.head?.bind FrameType.ofByte).any FrameType.continues = false) (src : UInt32) :
    transferPart src frame = none := by
  unfold transferPart
  split
  · generalize frame.head?.bind FrameType.ofByte = type at h
    cases type with
    | none => rfl
    | some t =>
      cases t with
      | fileChunk => cases h
      | fileEnd => cases h
      | fileError => cases h
      | _ => rfl
  · rfl

/-- What an event receives from `c` under `src`. -/
def Event.sentPart (c : ClientId) (src : UInt32) : Event → Option (Option Bytes)
  | .received c' frame => if c' = c then transferPart src frame else none
  | _ => none

def sentParts (c : ClientId) (src : UInt32) (log : List Event) : List (Option Bytes) :=
  log.filterMap (Event.sentPart c src)

theorem sentParts_append (c : ClientId) (src : UInt32) (log evs : List Event) :
    sentParts c src (log ++ evs) = sentParts c src log ++ sentParts c src evs :=
  List.filterMap_append

theorem sentParts_eq_nil {c : ClientId} {src : UInt32} {log : List Event}
    (h : ∀ frame, .received c frame ∉ log) : sentParts c src log = [] := by
  refine List.filterMap_eq_nil_iff.mpr fun e he => ?_
  cases e with
  | received c' frame =>
    rw [Event.sentPart, if_neg]
    rintro rfl
    exact h frame he
  | _ => rfl

theorem sentParts_received (c : ClientId) (src : UInt32) (frame : Bytes) :
    sentParts c src [.received c frame] = (transferPart src frame).toList := by
  rw [sentParts, List.filterMap_cons, Event.sentPart, if_pos rfl]
  cases transferPart src frame <;> rfl

theorem transferPart_of_decodeChunk {frame : Bytes} {chunk : FileChunkFrame}
    (h : decodeChunk frame = some chunk) :
    transferPart chunk.transferId frame = some (some chunk.data) := by
  obtain ⟨hh, ht, -, hlen⟩ := decodeChunk_some h
  have hdata : chunk.data = frame.drop (1 + 4) := by
    simp only [decodeChunk] at h
    split at h
    · cases h
    · rw [← Option.some.inj h]
  have hmax : frame.length ≤ frameMaxSize := by
    have hroom : 1 + 4 + fileChunkSize ≤ frameMaxSize := Nat.le_of_ble_eq_true rfl
    rw [hdata, List.length_drop] at hlen
    omega
  rw [transferPart, if_pos ⟨ht, hmax⟩, hh, Option.bind_some, FrameType.ofByte_toByte, hdata]

theorem transferPart_of_end {frame : Bytes} {src : UInt32}
    (h : decodeControl frame .fileEnd = .ok src) : transferPart src frame = some none := by
  obtain ⟨hh, ht⟩ := decodeControl_ok h
  have hmax : frame.length ≤ frameMaxSize := by
    have hroom : 1 + fileControlPayloadSize ≤ frameMaxSize := Nat.le_of_ble_eq_true rfl
    unfold decodeControl at h
    split_ifs at h with h1 h2
    omega
  rw [transferPart, if_pos ⟨ht, hmax⟩, hh, Option.bind_some, FrameType.ofByte_toByte]

/-- `c` sent a BEGIN under `src`, and `sent` is what it sent under `src` since. -/
def Source (log : List Event) (c : ClientId) (src : UInt32) (b : FileBeginFrame)
    (sent : List (Option Bytes)) : Prop :=
  ∃ before frame after, log = before ++ .received c frame :: after ∧
    decodeBegin frame = some b ∧ b.transferId = src ∧ sentParts c src after = sent

theorem Source.append {log : List Event} {c : ClientId} {src : UInt32} {b : FileBeginFrame}
    {sent : List (Option Bytes)} (h : Source log c src b sent) (evs : List Event) :
    Source (log ++ evs) c src b (sent ++ sentParts c src evs) := by
  obtain ⟨before, frame, after, rfl, hb, hsrc, rfl⟩ := h
  refine ⟨before, frame, after ++ evs, by simp, hb, hsrc, sentParts_append c src after evs⟩

/-- `c` sent a BEGIN and then an END under `src`, and in between the chunks with the data `sent`
and no other END or ERROR. -/
def Sent (log : List Event) (c : ClientId) (src : UInt32) (b : FileBeginFrame)
    (sent : List Bytes) : Prop :=
  ∃ before frame between frame' after,
    log = before ++ .received c frame :: (between ++ .received c frame' :: after) ∧
    decodeBegin frame = some b ∧ b.transferId = src ∧
    decodeControl frame' .fileEnd = .ok src ∧ sentParts c src between = sent.map some

theorem Sent.append {log : List Event} {c : ClientId} {src : UInt32} {b : FileBeginFrame}
    {sent : List Bytes} (h : Sent log c src b sent) (evs : List Event) :
    Sent (log ++ evs) c src b sent := by
  obtain ⟨before, frame, between, frame', after, rfl, hb, hsrc, hend, hsent⟩ := h
  exact ⟨before, frame, between, frame', after ++ evs, by simp, hb, hsrc, hend, hsent⟩

/-- The END that `c` is just being served for is the end of its source. -/
theorem Source.sent {log : List Event} {c : ClientId} {src : UInt32} {b : FileBeginFrame}
    {sent : List Bytes} {frame : Bytes} (h : Source log c src b (sent.map some ++ [none]))
    (hc : (monitor log c).call = .frame frame) (hend : decodeControl frame .fileEnd = .ok src) :
    Sent log c src b sent := by
  obtain ⟨before, begin_, after, hlog, hb, hsrc, hsent⟩ := h
  obtain ⟨before', after', hlog', hlast⟩ := monitor_call hc
  have hne : Event.received c begin_ ≠ .received c frame := by
    intro heq
    have hh := (decodeBegin_some hb).1
    rw [(Event.received.inj heq).2, (decodeControl_ok hend).1] at hh
    cases hh
  rw [hlog] at hlog'
  rcases List.append_eq_append_iff.mp hlog' with ⟨mid, rfl, hmid⟩ | ⟨mid, rfl, hmid⟩
  · cases mid with
    | nil =>
      cases hmid
      exact absurd rfl hne
    | cons e mid =>
      rw [List.cons_append] at hmid
      obtain ⟨rfl, rfl⟩ := List.cons.inj hmid
      refine ⟨before, begin_, mid, frame, after', hlog, hb, hsrc, hend, ?_⟩
      rw [List.append_cons, sentParts_append, sentParts_append, sentParts_eq_nil hlast,
        List.append_nil, sentParts_received, transferPart_of_end hend] at hsent
      exact List.append_cancel_right hsent
  · cases mid with
    | nil =>
      cases hmid
      exact absurd rfl hne
    | cons e mid =>
      rw [List.cons_append] at hmid
      obtain ⟨rfl, rfl⟩ := List.cons.inj hmid
      exact absurd (List.mem_append_right _ List.mem_cons_self) (hlast begin_)

/-- The logins under an id. -/
def Named (log : List Event) (c : ClientId) (name : Bytes) : Prop := ∃ n, .login n c name ∈ log

theorem Named.append {log : List Event} {c : ClientId} {name : Bytes} (h : Named log c name)
    (evs : List Event) : Named (log ++ evs) c name := by
  obtain ⟨n, hn⟩ := h
  exact ⟨n, List.mem_append_left _ hn⟩

theorem Server.found_ready {ok : Server → Label → Prop} {s : Server} (hs : server.Reach ok s)
    {before after : List Event} {c r : ClientId} {name : Bytes}
    (h : s.log = before ++ .did c (.findClientId name) r :: after) (hr : r ≠ invalidClientId) :
    ∃ s₀, server.Reach ok s₀ ∧ s₀.log = before ∧ server.Steps s₀ s ∧
      ∃ i l, s₀.shared.clients.login i = some l ∧ l.ready = true ∧ l.username = name ∧
        l.id = r := by
  obtain ⟨s₀, l, -, hr₀, -, hlog, hst, -, -, hanswer⟩ := Server.did_reach hs h
  simp only [perform] at hanswer
  have hcases := ClientManager.findClientId_cases s₀.shared.clients name
  rw [← hanswer] at hcases
  exact ⟨s₀, hr₀, hlog, hst, hcases.resolve_left hr⟩

/-- It had logged in under it. -/
theorem Server.found_named {ok : Server → Label → Prop} {s : Server} (hs : server.Reach ok s)
    {before after : List Event} {c r : ClientId} {name : Bytes}
    (h : s.log = before ++ .did c (.findClientId name) r :: after) (hr : r ≠ invalidClientId) :
    Named before r name := by
  obtain ⟨s₀, hr₀, hlog, -, i, l, hl, -, hname, hid⟩ := Server.found_ready hs h hr
  obtain ⟨n, hmem, -⟩ := (Server.wf_of_reach hr₀).logged i l hl
  rw [hname, hid, hlog] at hmem
  exact ⟨n, hmem⟩

end CipherChat
