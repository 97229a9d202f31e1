import CipherChat.Stream

/-!
# The relay

Frames under one outbound id come from several handlers and from the disconnect path,
and each of them takes the routes lock first and the registry lock afterwards.  `Relay`
ties together what the route table says, what the calls in flight still have to do and
what has been queued, and is kept by every step.
-/

namespace CipherChat

open FileRoutes

def Event.allocates : Event → Bool
  | .did _ (.routesAdd _ _ _ _ _) answer => answer.result == .ready
  | _ => false

def allocated (log : List Event) : ℕ := log.countP Event.allocates

theorem allocated_concat (log : List Event) (e : Event) :
    allocated (log ++ [e]) = allocated log + if e.allocates then 1 else 0 := by
  rw [allocated, List.countP_append, List.countP_singleton]
  rfl

theorem allocated_le_append (log evs : List Event) : allocated log ≤ allocated (log ++ evs) := by
  rw [allocated, allocated, List.countP_append]
  exact Nat.le_add_right _ _

/-- What the current call has received under `src` and not yet queued or acted on. -/
def Monitor.pending (m : Monitor) (src : UInt32) : List (Option Bytes) :=
  match m.duty, m.call with
  | .idle, .frame frame => (transferPart src frame).toList
  | .chunkForward src' _ data, _ => if src' = src then [some data] else []
  | _, _ => []

/-- The ids that `c` still sends under: of its live routes, and of its duty. -/
def Holds (t : FileRoutes) (m : Monitor) (c : ClientId) (o : UInt32) : Prop :=
  (∃ src r, t.live (c, src) = some r ∧ r.outboundTransferId = o) ∨ o ∈ m.duty.ids

/-- `o` is open to `target`, for the transfer that `c` announced with `b`. -/
structure Flow (log : List Event) (c target : ClientId) (o : UInt32) (b : FileBeginFrame)
    (chunks : List Bytes) : Prop where
  named : Named log target b.peer
  stream : ∃ name, Named log c name ∧
    Relays o (relayed log o) (.open target { b with transferId := o, peer := name } chunks)

/-- What ties the routes and the duty of one client to its streams. -/
structure ClientOk (t : FileRoutes) (log : List Event) (c : ClientId) (m : Monitor) : Prop where
  flows : ∀ src r, t.live (c, src) = some r → m.duty.about ≠ some src → ∃ b chunks,
    Flow log c r.targetId r.outboundTransferId b chunks ∧
    Source log c src b (chunks.map some ++ m.pending src) ∧ r.expectedSize = b.fileSize ∧
    r.forwardedSize.toNat = chunks.flatten.length
  begins : ∀ src endpoint b, m.duty = .beginForward src endpoint b →
    relayed log endpoint.outboundTransferId = [] ∧ Source log c src b [] ∧
    Named log endpoint.targetId b.peer ∧ ∀ r, t.live (c, src) = some r →
      endpoint = copyEndpoint r ∧ r.expectedSize = b.fileSize ∧ r.forwardedSize.toNat = 0
  forwards : ∀ src endpoint data, m.duty = .chunkForward src endpoint data → ∃ b chunks,
    Flow log c endpoint.targetId endpoint.outboundTransferId b chunks ∧
    Source log c src b (chunks.map some ++ [some data]) ∧
    chunks.flatten.length + data.length ≤ b.fileSize.toNat ∧ ∀ r, t.live (c, src) = some r →
      endpoint = copyEndpoint r ∧ r.expectedSize = b.fileSize ∧
      r.forwardedSize.toNat = chunks.flatten.length + data.length
  fails : ∀ src o, m.duty = .chunkFailed src o → ∀ r, t.live (c, src) = some r →
    r.outboundTransferId = o
  ends : ∀ endpoint, m.duty = .endForward endpoint → ∃ src b chunks,
    Flow log c endpoint.targetId endpoint.outboundTransferId b chunks ∧
    Sent log c src b chunks ∧ chunks.flatten.length = b.fileSize.toNat
  owes : ∀ endpoints, m.duty = .owes endpoints →
    (endpoints.map FileRouteEndpoint.outboundTransferId).Nodup ∧ ∀ endpoint ∈ endpoints,
      ∃ b chunks, Flow log c endpoint.targetId endpoint.outboundTransferId b chunks
  apart : ∀ src r, t.live (c, src) = some r → r.outboundTransferId ∈ m.duty.ids →
    m.duty.about = some src

/-- The transfer that a complete stream to `target` comes from. -/
def Delivered (log : List Event) (target : ClientId) (b : FileBeginFrame) (chunks : List Bytes) :
    Prop :=
  ∃ c src b₀, Named log c b.peer ∧ Named log target b₀.peer ∧ Sent log c src b₀ chunks ∧
    b.filename = b₀.filename ∧ b.fileSize = b₀.fileSize

structure Relay (x : Shared) (log : List Event) : Prop where
  counter : allocated log + 1 < 2 ^ 32 →
    x.routes.nextOutboundTransferId = UInt32.ofNat (allocated log + 1)
  known : ∀ c o, Holds x.routes (monitor log c) c o → o.toNat ≤ allocated log
  born : ∀ o, relayed log o ≠ [] → o.toNat ≤ allocated log
  holder : ∀ c c' o, Holds x.routes (monitor log c) c o → Holds x.routes (monitor log c') c' o →
    c = c'
  client : ∀ c, ClientOk x.routes log c (monitor log c)
  stream : ∀ o, ∃ st, Relays o (relayed log o) st ∧
    ∀ target b chunks, st = .closed target b chunks true → Delivered log target b chunks

theorem relay_init : Relay server.init.shared [] where
  counter _ := rfl
  known c o h := by
    rcases h with ⟨src, r, hr, -⟩ | h
    · rw [show server.init.shared.routes = FileRoutes.init from rfl, live_init] at hr
      cases hr
    · cases h
  born o h := absurd rfl h
  holder c c' o h := by
    rcases h with ⟨src, r, hr, -⟩ | h
    · rw [show server.init.shared.routes = FileRoutes.init from rfl, live_init] at hr
      cases hr
    · cases h
  client c := by
    have hlive : ∀ src, server.init.shared.routes.live (c, src) = none := fun src => live_init _
    refine ⟨?_, ?_, ?_, ?_, ?_, ?_, ?_⟩
    · intro src r hr
      rw [hlive] at hr
      cases hr
    · intro src endpoint b h
      cases h
    · intro src endpoint data h
      cases h
    · intro src o h
      cases h
    · intro endpoint h
      cases h
    · intro endpoints h
      cases h
    · intro src r hr
      rw [hlive] at hr
      cases hr
  stream o := ⟨.fresh, .fresh, fun target b chunks h => by cases h⟩

section Frame

variable {t t' : FileRoutes} {log evs : List Event} {c : ClientId} {m m' : Monitor}

theorem Flow.append {target : ClientId} {o : UInt32} {b : FileBeginFrame} {chunks : List Bytes}
    (h : Flow log c target o b chunks) (hrel : relayed (log ++ evs) o = relayed log o) :
    Flow (log ++ evs) c target o b chunks := by
  obtain ⟨name, hname, hstream⟩ := h.stream
  exact ⟨h.named.append evs, name, hname.append evs, hrel ▸ hstream⟩

theorem Delivered.append {target : ClientId} {b : FileBeginFrame} {chunks : List Bytes}
    (h : Delivered log target b chunks) (evs : List Event) :
    Delivered (log ++ evs) target b chunks := by
  obtain ⟨c, src, b₀, hc, ht, hsent, hf, hs⟩ := h
  exact ⟨c, src, b₀, hc.append evs, ht.append evs, hsent.append evs, hf, hs⟩

theorem Monitor.pending_congr (hd : m'.duty = m.duty) (hc : m'.call = m.call) :
    m'.pending = m.pending := by
  funext src
  rw [Monitor.pending, Monitor.pending, hd, hc]

/-- A client whose own call has not moved, and whose streams have not, is as it was;
it may have lost live routes. -/
theorem ClientOk.frame (h : ClientOk t log c m) (hd : m'.duty = m.duty)
    (hp : ∀ src, m'.pending src = m.pending src ++ sentParts c src evs)
    (hsent : m.duty ≠ .idle → ∀ src, sentParts c src evs = [])
    (hlive : ∀ src r, t'.live (c, src) = some r → t.live (c, src) = some r)
    (hrel : ∀ o, Holds t m c o → relayed (log ++ evs) o = relayed log o) :
    ClientOk t' (log ++ evs) c m' := by
  -- while a duty is open its client has sent nothing more
  have hnil : ∀ {src b sent}, m.duty ≠ .idle → Source log c src b sent →
      Source (log ++ evs) c src b sent := by
    intro src b sent hne hs
    have := hs.append evs
    rwa [hsent hne, List.append_nil] at this
  refine ⟨?_, ?_, ?_, ?_, ?_, ?_, ?_⟩
  · intro src r hr habout
    rw [hd] at habout
    obtain ⟨b, chunks, hflow, hsource, hsize, hsum⟩ := h.flows src r (hlive src r hr) habout
    refine ⟨b, chunks, hflow.append (hrel _ (.inl ⟨src, r, hlive src r hr, rfl⟩)), ?_, hsize, hsum⟩
    rw [hp, ← List.append_assoc]
    exact hsource.append evs
  · intro src endpoint b hm
    rw [hd] at hm
    obtain ⟨hfresh, hsource, hnamed, hroute⟩ := h.begins src endpoint b hm
    refine ⟨?_, hnil (by rw [hm]; simp) hsource, hnamed.append evs,
      fun r hr => hroute r (hlive src r hr)⟩
    rw [hrel _ (.inr (by rw [hm]; exact List.mem_singleton.mpr rfl)), hfresh]
  · intro src endpoint data hm
    rw [hd] at hm
    obtain ⟨b, chunks, hflow, hsource, hle, hroute⟩ := h.forwards src endpoint data hm
    exact ⟨b, chunks, hflow.append (hrel _ (.inr (by rw [hm]; exact List.mem_singleton.mpr rfl))),
      hnil (by rw [hm]; simp) hsource, hle, fun r hr => hroute r (hlive src r hr)⟩
  · intro src o hm r hr
    rw [hd] at hm
    exact h.fails src o hm r (hlive src r hr)
  · intro endpoint hm
    rw [hd] at hm
    obtain ⟨src, b, chunks, hflow, hsource, hn⟩ := h.ends endpoint hm
    exact ⟨src, b, chunks,
      hflow.append (hrel _ (.inr (by rw [hm]; exact List.mem_singleton.mpr rfl))),
      hsource.append evs, hn⟩
  · intro endpoints hm
    rw [hd] at hm
    obtain ⟨hnodup, hflows⟩ := h.owes endpoints hm
    refine ⟨hnodup, fun endpoint he => ?_⟩
    obtain ⟨b, chunks, hflow⟩ := hflows endpoint he
    exact ⟨b, chunks, hflow.append (hrel _ (.inr (by rw [hm]; exact List.mem_map_of_mem he)))⟩
  · intro src r hr ho
    rw [hd] at ho ⊢
    exact h.apart src r (hlive src r hr) ho

theorem Monitor.pending_of_atRest (h : m.AtRest) (src : UInt32) : m.pending src = [] := by
  rcases h with ⟨hd, hm⟩ | hd
  · rw [Monitor.pending, hd]
    split
    · next frame _ hc =>
      rw [hc] at hm
      by_cases hid : readTransferId frame = some src ∧ frame.length ≤ frameMaxSize
      · rw [transferPart_of_head]
        · rfl
        · refine Bool.eq_false_iff.mpr fun hh => hm ⟨hh, ?_, hid.2⟩
          have ht := hid.1
          rw [readTransferId] at ht
          split at ht
          · cases ht
          · omega
      · rw [transferPart, if_neg hid]
        rfl
    · next heq => cases heq
    · rfl
  · rw [Monitor.pending, hd]

theorem ClientOk.returned (h : ClientOk t log c m) (hm : m.AtRest)
    (hsent : ∀ src, sentParts c src evs = [])
    (hrel : ∀ o, relayed (log ++ evs) o = relayed log o) :
    ClientOk t (log ++ evs) c {} := by
  have habout : m.duty.about = none := by
    rcases hm with ⟨hd, -⟩ | hd <;> rw [hd] <;> rfl
  refine ⟨?_, ?_, ?_, ?_, ?_, ?_, ?_⟩
  · intro src r hr _
    obtain ⟨b, chunks, hflow, hsource, hsize, hsum⟩ :=
      h.flows src r hr (by rw [habout]; simp)
    rw [Monitor.pending_of_atRest hm] at hsource
    refine ⟨b, chunks, hflow.append (hrel _), ?_, hsize, hsum⟩
    have := hsource.append evs
    rwa [hsent, List.append_nil] at this
  · intro src endpoint b hd
    cases hd
  · intro src endpoint data hd
    cases hd
  · intro src o hd
    cases hd
  · intro endpoint hd
    cases hd
  · intro endpoints hd
    cases hd
  · intro src r hr ho
    cases ho

end Frame

section Advance

variable {x x' : Shared} {log : List Event} {c : ClientId} {op : Op} {answer : op.Resp}

/-- A step of `c`'s call: only `c` may start to use an id, and it only sends under ids
that it holds. -/
theorem Relay.advance (h : Relay x log)
    (hn : allocated (log ++ [.did c op answer]) + 1 < 2 ^ 32 → x'.routes.nextOutboundTransferId =
      UInt32.ofNat (allocated (log ++ [.did c op answer]) + 1))
    (hother : ∀ k r, k.1 ≠ c → x'.routes.live k = some r → x.routes.live k = some r)
    (hholds : ∀ o, Holds x'.routes ((monitor log c).next c op answer) c o →
      Holds x.routes (monitor log c) c o ∨
        allocated log < o.toNat ∧ o.toNat ≤ allocated (log ++ [.did c op answer]))
    (hstream : ∀ o, relayed (log ++ [.did c op answer]) o = relayed log o ∨
      Holds x.routes (monitor log c) c o ∧
        ∃ st, Relays o (relayed (log ++ [.did c op answer]) o) st ∧
          ∀ target b chunks, st = .closed target b chunks true →
            Delivered (log ++ [.did c op answer]) target b chunks)
    (hself : ClientOk x'.routes (log ++ [.did c op answer]) c ((monitor log c).next c op answer)) :
    Relay x' (log ++ [.did c op answer]) := by
  have hmono := allocated_le_append log [.did c op answer]
  -- an operation of one client moves the duty of no other
  have holds_other : ∀ c' o, c ≠ c' →
      Holds x'.routes (monitor (log ++ [.did c op answer]) c') c' o →
      Holds x.routes (monitor log c') c' o := by
    intro c' o hne ho
    rw [monitor_did_of_ne hne] at ho
    rcases ho with ⟨src, r, hr, ho⟩ | ho
    · exact .inl ⟨src, r, hother _ r hne.symm hr, ho⟩
    · exact .inr ho
  have hknown : ∀ c' o, Holds x'.routes (monitor (log ++ [.did c op answer]) c') c' o →
      Holds x.routes (monitor log c') c' o ∨
        c = c' ∧ allocated log < o.toNat ∧ o.toNat ≤ allocated (log ++ [.did c op answer]) := by
    intro c' o ho
    by_cases hc : c = c'
    · subst hc
      rw [monitor_did_self] at ho
      exact (hholds o ho).imp_right fun hnew => ⟨rfl, hnew⟩
    · exact .inl (holds_other c' o hc ho)
  refine ⟨hn, ?_, ?_, ?_, ?_, ?_⟩
  · intro c' o ho
    rcases hknown c' o ho with ho | ⟨-, -, ho⟩
    · exact (h.known c' o ho).trans hmono
    · exact ho
  · intro o ho
    rcases hstream o with heq | ⟨hold, -⟩
    · exact (h.born o (heq ▸ ho)).trans hmono
    · exact (h.known c o hold).trans hmono
  -- two holders of one id: neither can be new, for the ids known are smaller
  · intro c₁ c₂ o h₁ h₂
    rcases hknown c₁ o h₁ with h₁ | ⟨rfl, hlt, -⟩
    · rcases hknown c₂ o h₂ with h₂ | ⟨rfl, hlt, -⟩
      · exact h.holder c₁ c₂ o h₁ h₂
      · exact absurd (h.known c₁ o h₁) (not_le.mpr hlt)
    · rcases hknown c₂ o h₂ with h₂ | ⟨rfl, -⟩
      · exact absurd (h.known c₂ o h₂) (not_le.mpr hlt)
      · rfl
  · intro c'
    by_cases hc : c = c'
    · subst hc
      rw [monitor_did_self]
      exact hself
    · rw [monitor_did_of_ne hc]
      refine (h.client c').frame rfl (fun src => (List.append_nil _).symm) (fun _ _ => rfl)
        (fun src r hr => hother _ r (Ne.symm hc) hr) fun o ho => ?_
      rcases hstream o with heq | ⟨hold, -⟩
      · exact heq
      · exact absurd (h.holder c c' o hold ho) hc
  · intro o
    rcases hstream o with heq | ⟨-, hst⟩
    · obtain ⟨st, hst, hdel⟩ := h.stream o
      exact ⟨st, heq ▸ hst, fun target b chunks hc => (hdel target b chunks hc).append _⟩
    · exact hst

theorem Relay.advance_silent (h : Relay x log)
    (hn : x'.routes.nextOutboundTransferId = x.routes.nextOutboundTransferId)
    (hrel : ∀ o, (Event.did c op answer).relayed o = none)
    (halloc : (Event.did c op answer).allocates = false)
    (hother : ∀ k r, k.1 ≠ c → x'.routes.live k = some r → x.routes.live k = some r)
    (hholds : ∀ o, Holds x'.routes ((monitor log c).next c op answer) c o →
      Holds x.routes (monitor log c) c o)
    (hself : ClientOk x'.routes (log ++ [.did c op answer]) c ((monitor log c).next c op answer)) :
    Relay x' (log ++ [.did c op answer]) := by
  refine h.advance ?_ hother (fun o ho => .inl (hholds o ho)) (fun o => .inl ?_) hself
  · rw [hn, allocated_concat, halloc]
    exact h.counter
  · rw [relayed_concat, hrel, Option.toList_none, List.append_nil]

theorem Relay.neutral (h : Relay x log) (hroutes : x'.routes = x.routes)
    (hd : ((monitor log c).next c op answer).duty = (monitor log c).duty)
    (hrel : ∀ o, (Event.did c op answer).relayed o = none)
    (halloc : (Event.did c op answer).allocates = false) :
    Relay x' (log ++ [.did c op answer]) := by
  refine h.advance_silent (by rw [hroutes]) hrel halloc (fun k r _ hr => hroutes ▸ hr) ?_ ?_
  · intro o ho
    rw [Holds, hd, hroutes] at ho
    exact ho
  · refine (h.client c).frame hd ?_ (fun _ _ => rfl) (fun src r hr => hroutes ▸ hr) ?_
    · intro src
      rw [Monitor.pending_congr hd rfl]
      exact (List.append_nil _).symm
    · intro o _
      rw [relayed_concat, hrel, Option.toList_none, List.append_nil]

end Advance

section Duties

variable {t : FileRoutes} {log : List Event} {c : ClientId} {m : Monitor} {src : UInt32}
  {r : FileRoute}

def Flowing (log : List Event) (c : ClientId) (src : UInt32) (r : FileRoute) : Prop :=
  ∃ b chunks, Flow log c r.targetId r.outboundTransferId b chunks ∧
    Source log c src b (chunks.map some) ∧ r.expectedSize = b.fileSize ∧
    r.forwardedSize.toNat = chunks.flatten.length

theorem ClientOk.flowing (h : ClientOk t log c m) (hr : t.live (c, src) = some r)
    (ha : m.duty.about ≠ some src) (hp : m.pending src = []) : Flowing log c src r := by
  obtain ⟨b, chunks, hflow, hsource, hrest⟩ := h.flows src r hr ha
  rw [hp, List.append_nil] at hsource
  exact ⟨b, chunks, hflow, hsource, hrest⟩

theorem ClientOk.others (h : ClientOk t log c m) (ha : m.duty.about = some src)
    {src' : UInt32} (hr : t.live (c, src') = some r) (hne : src' ≠ src) :
    Flowing log c src' r ∧ r.outboundTransferId ∉ m.duty.ids := by
  have habout : m.duty.about ≠ some src' := by
    rw [ha]
    exact fun heq => hne (Option.some.inj heq).symm
  refine ⟨h.flowing hr habout ?_, fun ho => habout (h.apart src' r hr ho)⟩
  cases hd : m.duty with
  | chunkForward src₀ endpoint data =>
    rw [hd] at ha
    rw [Monitor.pending, hd]
    exact if_neg fun heq => hne (heq.symm.trans (Option.some.inj ha))
  | beginForward => rw [Monitor.pending, hd]
  | beginFailed => rw [Monitor.pending, hd]
  | chunkFailed => rw [Monitor.pending, hd]
  | idle =>
    rw [hd] at ha
    cases ha
  | endForward =>
    rw [hd] at ha
    cases ha
  | owes =>
    rw [hd] at ha
    cases ha

theorem Source.did {b : FileBeginFrame} {sent : List (Option Bytes)} (h : Source log c src b sent)
    (c' : ClientId) (op : Op) (answer : op.Resp) :
    Source (log ++ [.did c' op answer]) c src b sent := by
  have := h.append [.did c' op answer]
  rwa [show sentParts c src [.did c' op answer] = [] from rfl, List.append_nil] at this

theorem Flowing.did (h : Flowing log c src r) {c' : ClientId} {op : Op} {answer : op.Resp}
    (hrel : relayed (log ++ [.did c' op answer]) r.outboundTransferId =
      relayed log r.outboundTransferId) : Flowing (log ++ [.did c' op answer]) c src r := by
  obtain ⟨b, chunks, hflow, hsource, hrest⟩ := h
  exact ⟨b, chunks, hflow.append hrel, hsource.did c' op answer, hrest⟩

theorem ClientOk.owing {endpoints : List FileRouteEndpoint} (hd : m.duty = .owes endpoints)
    (hflows : ∀ src r, t.live (c, src) = some r → Flowing log c src r)
    (hnodup : (endpoints.map FileRouteEndpoint.outboundTransferId).Nodup)
    (howes : ∀ endpoint ∈ endpoints, ∃ b chunks,
      Flow log c endpoint.targetId endpoint.outboundTransferId b chunks)
    (hapart : ∀ src r, t.live (c, src) = some r →
      ∀ endpoint ∈ endpoints, endpoint.outboundTransferId ≠ r.outboundTransferId) :
    ClientOk t log c m := by
  refine ⟨?_, ?_, ?_, ?_, ?_, ?_, ?_⟩
  · intro src r hr _
    obtain ⟨b, chunks, hflow, hsource, hrest⟩ := hflows src r hr
    refine ⟨b, chunks, hflow, ?_, hrest⟩
    rwa [Monitor.pending, hd, List.append_nil]
  · intro src endpoint b hm
    rw [hd] at hm
    cases hm
  · intro src endpoint data hm
    rw [hd] at hm
    cases hm
  · intro src o hm
    rw [hd] at hm
    cases hm
  · intro endpoint hm
    rw [hd] at hm
    cases hm
  · intro endpoints' hm
    rw [hd] at hm
    cases hm
    exact ⟨hnodup, howes⟩
  · intro src r hr ho
    rw [hd] at ho
    obtain ⟨endpoint, he, heq⟩ := List.mem_map.mp ho
    exact absurd heq (hapart src r hr endpoint he)

theorem ClientOk.quit (hd : m.duty = .owes [])
    (hflows : ∀ src r, t.live (c, src) = some r → Flowing log c src r) : ClientOk t log c m :=
  .owing hd hflows List.nodup_nil (fun _ he => absurd he List.not_mem_nil)
    fun _ _ _ _ he => absurd he List.not_mem_nil

theorem ClientOk.oweOne {endpoint : FileRouteEndpoint} (hd : m.duty = owe endpoint)
    (hflows : ∀ src r, t.live (c, src) = some r → Flowing log c src r)
    (howes : ∃ b chunks, Flow log c endpoint.targetId endpoint.outboundTransferId b chunks)
    (hapart : ∀ src r, t.live (c, src) = some r →
      endpoint.outboundTransferId ≠ r.outboundTransferId) : ClientOk t log c m := by
  rw [owe] at hd
  split at hd
  · exact .quit hd hflows
  · refine .owing hd hflows (List.nodup_singleton _) ?_ ?_
    · intro endpoint' he
      rw [List.mem_singleton.mp he]
      exact howes
    · intro src r hr endpoint' he
      rw [List.mem_singleton.mp he]
      exact hapart src r hr

/-- A forward of the route `src` failed. -/
theorem ClientOk.failing
    (hd : m.duty = .beginFailed src ∨ ∃ o, m.duty = .chunkFailed src o ∧
      ∀ r, t.live (c, src) = some r → r.outboundTransferId = o)
    (hflows : ∀ src' r, t.live (c, src') = some r → src' ≠ src → Flowing log c src' r) :
    ClientOk t log c m := by
  have habout : m.duty.about = some src := by
    rcases hd with hd | ⟨o, hd, -⟩ <;> rw [hd] <;> rfl
  have hids : m.duty.ids = [] := by
    rcases hd with hd | ⟨o, hd, -⟩ <;> rw [hd] <;> rfl
  have hpending : ∀ src', m.pending src' = [] := by
    intro src'
    rcases hd with hd | ⟨o, hd, -⟩ <;> rw [Monitor.pending, hd]
  refine ⟨?_, ?_, ?_, ?_, ?_, ?_, ?_⟩
  · intro src' r hr ha
    obtain ⟨b, chunks, hflow, hsource, hrest⟩ := hflows src' r hr (by
      rintro rfl
      exact ha habout)
    refine ⟨b, chunks, hflow, ?_, hrest⟩
    rwa [hpending, List.append_nil]
  · intro src' endpoint b hm
    rcases hd with hd | ⟨o, hd, -⟩ <;> rw [hd] at hm <;> cases hm
  · intro src' endpoint data hm
    rcases hd with hd | ⟨o, hd, -⟩ <;> rw [hd] at hm <;> cases hm
  · intro src' o' hm
    rcases hd with hd | ⟨o, hd, hroute⟩
    · rw [hd] at hm
      cases hm
    · rw [hd] at hm
      cases hm
      exact hroute
  · intro endpoint hm
    rcases hd with hd | ⟨o, hd, -⟩ <;> rw [hd] at hm <;> cases hm
  · intro endpoints hm
    rcases hd with hd | ⟨o, hd, -⟩ <;> rw [hd] at hm <;> cases hm
  · intro src' r hr ho
    rw [hids] at ho
    cases ho

end Duties

section Queue

variable {x x' : Shared} {log : List Event} {c : ClientId} {name payload : Bytes}

theorem relayed_queued {type : FrameType} {o : UInt32} (ht : type.isFile = true)
    (hid : readTransferId (type.toByte :: payload) = some o) (r : ClientId) (o' : UInt32) :
    relayed (log ++ [.did c (.queueFrame r type payload) (.ok ())]) o' =
      relayed log o' ++ if o' = o then [(r, type.toByte :: payload)] else [] := by
  rw [relayed_concat, Event.relayed, hid, ht]
  by_cases ho : o' = o
  · rw [if_pos ⟨rfl, congrArg some ho.symm⟩, if_pos ho]
    rfl
  · rw [if_neg fun h => ho (Option.some.inj h.2).symm, if_neg ho]
    rfl

theorem relayed_queued_of_ne {type : FrameType} {o o' : UInt32} (ht : type.isFile = true)
    (hid : readTransferId (type.toByte :: payload) = some o) (r : ClientId) (hne : o' ≠ o) :
    relayed (log ++ [.did c (.queueFrame r type payload) (.ok ())]) o' = relayed log o' := by
  rw [relayed_queued ht hid, if_neg hne, List.append_nil]

/-- A frame under an id that `c` holds was queued, and nothing is left to do for it. -/
theorem Relay.queue (h : Relay x log) (hroutes : x'.routes = x.routes) {r : ClientId}
    {type : FrameType} {o : UInt32} (ht : type.isFile = true)
    (hid : readTransferId (type.toByte :: payload) = some o)
    (hd : o ∈ (monitor log c).duty.ids) {rest : List FileRouteEndpoint}
    (hnext : ((monitor log c).next c (.queueFrame r type payload) (.ok ())).duty = .owes rest)
    (hrest : ∀ o', o' ∈ (Duty.owes rest).ids → o' ∈ (monitor log c).duty.ids)
    (hstream : ∃ st, Relays o (relayed log o ++ [(r, type.toByte :: payload)]) st ∧
      ∀ target b chunks, st = .closed target b chunks true → Delivered log target b chunks)
    (hself : ClientOk x.routes (log ++ [.did c (.queueFrame r type payload) (.ok ())]) c
      ((monitor log c).next c (.queueFrame r type payload) (.ok ()))) :
    Relay x' (log ++ [.did c (.queueFrame r type payload) (.ok ())]) := by
  refine h.advance ?_ (fun k r _ hr => hroutes ▸ hr) ?_ ?_ (hroutes ▸ hself)
  · rw [hroutes, allocated_concat]
    exact h.counter
  · intro o' ho
    rw [Holds, hnext, hroutes] at ho
    exact .inl (ho.imp_right (hrest o'))
  · intro o'
    rw [relayed_queued ht hid]
    by_cases ho : o' = o
    · subst ho
      rw [if_pos rfl]
      obtain ⟨st, hst, hdel⟩ := hstream
      exact .inr ⟨.inr hd, st, hst, fun target b chunks hc => (hdel target b chunks hc).append _⟩
    · rw [if_neg ho, List.append_nil]
      exact .inl rfl

theorem Relay.queueBegin (h : Relay x log) (hroutes : x'.routes = x.routes)
    (hname : Named log c name) {src : UInt32} {endpoint : FileRouteEndpoint} {b : FileBeginFrame}
    (hd : (monitor log c).duty = .beginForward src endpoint b)
    (henc : encodeBegin fileBeginPayloadMaxSize endpoint.outboundTransferId b.fileSize name
      b.filename = .ok payload) (answer : Except Errno Unit) :
    Relay x' (log ++ [.did c (.queueFrame endpoint.targetId .fileBegin payload) answer]) := by
  have hclient := h.client c
  obtain ⟨hfresh, hsource, hnamed, hroute⟩ := hclient.begins src endpoint b hd
  have habout : (monitor log c).duty.about = some src := by rw [hd]; rfl
  have hmem : endpoint.outboundTransferId ∈ (monitor log c).duty.ids := by
    rw [hd]
    exact List.mem_singleton.mpr rfl
  cases answer with
  -- not queued: the route is left to be quarantined
  | error e =>
    have hnext : ((monitor log c).next c (.queueFrame endpoint.targetId .fileBegin payload)
        (.error e)).duty = .beginFailed src := by
      simp only [Monitor.next, Monitor.nextDuty, hd, if_true, Monitor.afterForward]
    refine h.advance_silent (by rw [hroutes]) (fun _ => rfl) rfl (fun k r _ hr =>
      hroutes ▸ hr) ?_ ?_
    · intro o ho
      rw [Holds, hnext, hroutes] at ho
      exact ho.imp_right fun ho => absurd ho List.not_mem_nil
    · rw [hroutes]
      refine .failing (.inl hnext) fun src' r hr hne => (hclient.others habout hr hne).1.did ?_
      rw [relayed_concat]
      exact List.append_nil _
  | ok _ =>
    -- queued: the stream of the new id starts with it
    have hdec := decodeBegin_encodeBegin henc
    have hid : readTransferId (FrameType.fileBegin.toByte :: payload) =
        some endpoint.outboundTransferId := (decodeBegin_some hdec).2.1
    have hnext : ((monitor log c).next c (.queueFrame endpoint.targetId .fileBegin payload)
        (.ok ())).duty = .owes [] := by
      simp only [Monitor.next, Monitor.nextDuty, hd, if_true, Monitor.afterForward]
    refine h.queue hroutes rfl hid hmem hnext (fun o' ho => absurd ho List.not_mem_nil) ?_
      (.quit hnext fun src' r hr => ?_)
    · rw [hfresh]
      exact ⟨_, .opened hdec rfl, fun target b chunks hc => by cases hc⟩
    · by_cases hsrc : src' = src
      · subst hsrc
        obtain ⟨rfl, hsize, hzero⟩ := hroute r hr
        refine ⟨b, [], ⟨hnamed.append _, name, hname.append _, ?_⟩, hsource.did _ _ _, hsize, hzero⟩
        rw [relayed_queued rfl hid, show (copyEndpoint r).outboundTransferId =
          r.outboundTransferId from rfl, if_pos rfl,
          show relayed log r.outboundTransferId = [] from hfresh]
        exact .opened hdec rfl
      · obtain ⟨hflow, hnot⟩ := hclient.others habout hr hsrc
        exact hflow.did (relayed_queued_of_ne rfl hid _ fun ho => hnot (ho ▸ hmem))

theorem Relay.queueChunk (h : Relay x log) (hroutes : x'.routes = x.routes) {src : UInt32}
    {endpoint : FileRouteEndpoint} {data : Bytes}
    (hd : (monitor log c).duty = .chunkForward src endpoint data)
    (henc : encodeChunk fileChunkPayloadMaxSize endpoint.outboundTransferId data = .ok payload)
    (answer : Except Errno Unit) :
    Relay x' (log ++ [.did c (.queueFrame endpoint.targetId .fileChunk payload) answer]) := by
  have hclient := h.client c
  obtain ⟨b, chunks, hflow, hsource, hle, hroute⟩ := hclient.forwards src endpoint data hd
  have habout : (monitor log c).duty.about = some src := by rw [hd]; rfl
  have hmem : endpoint.outboundTransferId ∈ (monitor log c).duty.ids := by
    rw [hd]
    exact List.mem_singleton.mpr rfl
  cases answer with
  -- not queued: the route is live until the call marks it
  | error e =>
    have hnext : ((monitor log c).next c (.queueFrame endpoint.targetId .fileChunk payload)
        (.error e)).duty = .chunkFailed src endpoint.outboundTransferId := by
      simp only [Monitor.next, Monitor.nextDuty, hd, if_true, Monitor.afterForward]
    refine h.advance_silent (by rw [hroutes]) (fun _ => rfl) rfl (fun k r _ hr =>
      hroutes ▸ hr) ?_ ?_
    · intro o ho
      rw [Holds, hnext, hroutes] at ho
      exact ho.imp_right fun ho => absurd ho List.not_mem_nil
    · rw [hroutes]
      refine .failing (.inr ⟨_, hnext, fun r hr => ?_⟩) fun src' r hr hne =>
        (hclient.others habout hr hne).1.did ?_
      · rw [(hroute r hr).1]
        rfl
      · rw [relayed_concat]
        exact List.append_nil _
  | ok _ =>
    -- queued: one more chunk in the stream of the id
    have hdec := decodeChunk_encodeChunk henc
    have hid : readTransferId (FrameType.fileChunk.toByte :: payload) =
        some endpoint.outboundTransferId := (decodeChunk_some hdec).2.1
    have hnext : ((monitor log c).next c (.queueFrame endpoint.targetId .fileChunk payload)
        (.ok ())).duty = .owes [] := by
      simp only [Monitor.next, Monitor.nextDuty, hd, if_true, Monitor.afterForward]
    obtain ⟨name, hname, hstream⟩ := hflow.stream
    refine h.queue hroutes rfl hid hmem hnext (fun o' ho => absurd ho List.not_mem_nil) ?_
      (.quit hnext fun src' r hr => ?_)
    · exact ⟨_, .chunk hstream hdec hle, fun target b chunks hc => by cases hc⟩
    · by_cases hsrc : src' = src
      · subst hsrc
        obtain ⟨rfl, hsize, hsum⟩ := hroute r hr
        refine ⟨b, chunks ++ [data], ⟨hflow.named.append _, name, hname.append _, ?_⟩, ?_, hsize,
          ?_⟩
        · rw [relayed_queued rfl hid, show (copyEndpoint r).outboundTransferId =
            r.outboundTransferId from rfl, if_pos rfl]
          exact .chunk hstream hdec hle
        · rw [List.map_append]
          exact hsource.did _ _ _
        · rw [hsum, List.flatten_append, List.length_append, List.flatten_singleton]
      · obtain ⟨hrest, hnot⟩ := hclient.others habout hr hsrc
        exact hrest.did (relayed_queued_of_ne rfl hid _ fun ho => hnot (ho ▸ hmem))

theorem ClientOk.rest {t : FileRoutes} {m : Monitor} (h : ClientOk t log c m)
    (ha : m.duty.about = none) (hne : m.duty ≠ .idle) {src : UInt32} {r : FileRoute}
    (hr : t.live (c, src) = some r) :
    Flowing log c src r ∧ r.outboundTransferId ∉ m.duty.ids := by
  have habout : m.duty.about ≠ some src := by rw [ha]; simp
  refine ⟨h.flowing hr habout ?_, fun ho => habout (h.apart src r hr ho)⟩
  cases hd : m.duty with
  | idle => exact absurd hd hne
  | endForward => rw [Monitor.pending, hd]
  | owes => rw [Monitor.pending, hd]
  | _ =>
    rw [hd] at ha
    cases ha

theorem Relay.queueEnd (h : Relay x log) (hroutes : x'.routes = x.routes)
    {endpoint : FileRouteEndpoint} (hd : (monitor log c).duty = .endForward endpoint)
    (answer : Except Errno Unit) :
    Relay x' (log ++ [.did c (.queueFrame endpoint.targetId .fileEnd
      (writeU32 endpoint.outboundTransferId)) answer]) := by
  have hclient := h.client c
  obtain ⟨src, b, chunks, hflow, hsent, hn⟩ := hclient.ends endpoint hd
  have hrest : ∀ {src r}, x.routes.live (c, src) = some r →
      Flowing log c src r ∧ r.outboundTransferId ∉ (monitor log c).duty.ids :=
    hclient.rest (by rw [hd]; rfl) (by rw [hd]; simp)
  have hnext : ((monitor log c).next c (.queueFrame endpoint.targetId .fileEnd
      (writeU32 endpoint.outboundTransferId)) answer).duty = .owes [] := by
    simp only [Monitor.next, Monitor.nextDuty, hd, if_true]
  cases answer with
  | error e =>
    refine h.advance_silent (by rw [hroutes]) (fun _ => rfl) rfl (fun k r _ hr =>
      hroutes ▸ hr) ?_ ?_
    · intro o ho
      rw [Holds, hnext, hroutes] at ho
      exact ho.imp_right fun ho => absurd ho List.not_mem_nil
    · rw [hroutes]
      refine .quit hnext fun src' r hr => (hrest hr).1.did ?_
      rw [relayed_concat]
      exact List.append_nil _
  | ok _ =>
    have hmem : endpoint.outboundTransferId ∈ (monitor log c).duty.ids := by
      rw [hd]
      exact List.mem_singleton.mpr rfl
    have hdec := decodeControl_encodeControl (t := .fileEnd) (.inl rfl)
      (encodeControl_eq endpoint.outboundTransferId)
    have hid := (decodeControl_ok hdec).2
    obtain ⟨name, hname, hstream⟩ := hflow.stream
    refine h.queue hroutes rfl hid hmem hnext (fun o' ho => absurd ho List.not_mem_nil) ?_
      (.quit hnext fun src' r hr => (hrest hr).1.did ?_)
    · refine ⟨_, .ended hstream hdec hn, fun target b' chunks' hc => ?_⟩
      cases hc
      exact ⟨c, src, b, hname, hflow.named, hsent, rfl, rfl⟩
    · exact relayed_queued_of_ne rfl hid _ fun ho => (hrest hr).2 (ho ▸ hmem)

theorem Relay.queueError (h : Relay x log) (hroutes : x'.routes = x.routes)
    {endpoint : FileRouteEndpoint} {rest : List FileRouteEndpoint}
    (hd : (monitor log c).duty = .owes (endpoint :: rest)) (answer : Except Errno Unit) :
    Relay x' (log ++ [.did c (.queueFrame endpoint.targetId .fileError
      (writeU32 endpoint.outboundTransferId)) answer]) := by
  have hclient := h.client c
  obtain ⟨hnodup, howes⟩ := hclient.owes _ hd
  have hrest : ∀ {src r}, x.routes.live (c, src) = some r →
      Flowing log c src r ∧ r.outboundTransferId ∉ (monitor log c).duty.ids :=
    hclient.rest (by rw [hd]; rfl) (by rw [hd]; simp)
  have hids : (monitor log c).duty.ids =
      endpoint.outboundTransferId :: rest.map FileRouteEndpoint.outboundTransferId := by
    rw [hd]
    rfl
  have hnext : ((monitor log c).next c (.queueFrame endpoint.targetId .fileError
      (writeU32 endpoint.outboundTransferId)) answer).duty = .owes rest := by
    simp only [Monitor.next, Monitor.nextDuty, hd, if_true]
  rw [List.map_cons, List.nodup_cons] at hnodup
  have hkeep : ∀ o', o' ∈ (Duty.owes rest).ids → o' ∈ (monitor log c).duty.ids := by
    intro o' ho
    rw [hids]
    exact List.mem_cons_of_mem _ ho
  have hapart : ∀ src r, x.routes.live (c, src) = some r → ∀ endpoint' ∈ rest,
      endpoint'.outboundTransferId ≠ r.outboundTransferId := by
    intro src r hr endpoint' he heq
    exact (hrest hr).2 (heq ▸ hkeep _ (List.mem_map_of_mem he))
  cases answer with
  -- the ERROR is lost, and its stream stays as it is
  | error e =>
    have hsame : ∀ o, relayed (log ++ [.did c (.queueFrame endpoint.targetId .fileError
        (writeU32 endpoint.outboundTransferId)) (.error e)]) o = relayed log o := by
      intro o
      rw [relayed_concat]
      exact List.append_nil _
    refine h.advance_silent (by rw [hroutes]) (fun _ => rfl) rfl (fun k r _ hr =>
      hroutes ▸ hr) ?_ ?_
    · intro o ho
      rw [Holds, hnext, hroutes] at ho
      exact ho.imp_right (hkeep o)
    · rw [hroutes]
      refine .owing hnext (fun src' r hr => (hrest hr).1.did (hsame _)) hnodup.2 ?_ hapart
      intro endpoint' he
      obtain ⟨b, chunks, hflow⟩ := howes endpoint' (List.mem_cons_of_mem _ he)
      exact ⟨b, chunks, hflow.append (hsame _)⟩
  | ok _ =>
    -- queued, it closes the stream of the endpoint
    have hmem : endpoint.outboundTransferId ∈ (monitor log c).duty.ids := by
      rw [hids]
      exact List.mem_cons_self
    have hdec := decodeControl_encodeControl (t := .fileError) (.inr rfl)
      (encodeControl_eq endpoint.outboundTransferId)
    have hid := (decodeControl_ok hdec).2
    obtain ⟨b, chunks, hflow⟩ := howes endpoint List.mem_cons_self
    obtain ⟨name, hname, hstream⟩ := hflow.stream
    refine h.queue hroutes rfl hid hmem hnext hkeep ?_
      (.owing hnext (fun src' r hr => (hrest hr).1.did ?_) hnodup.2 ?_ hapart)
    · exact ⟨_, .failed hstream hdec, fun target b' chunks' hc => by cases hc⟩
    · exact relayed_queued_of_ne rfl hid _ fun ho => (hrest hr).2 (ho ▸ hmem)
    · intro endpoint' he
      obtain ⟨b', chunks', hflow'⟩ := howes endpoint' (List.mem_cons_of_mem _ he)
      exact ⟨b', chunks', hflow'.append (relayed_queued_of_ne rfl hid _ fun ho =>
        hnodup.1 (ho ▸ List.mem_map_of_mem he))⟩

end Queue

section Routes

variable {x x' : Shared} {log : List Event} {c : ClientId} {name : Bytes} {src : UInt32} {op : Op}
  {answer : op.Resp}

theorem Monitor.pending_of_head {m : Monitor} {frame : Bytes} (hd : m.duty = .idle)
    (hc : m.call = .frame frame)
    (hh : (frame.head?.bind FrameType.ofByte).any FrameType.continues = false) (src : UInt32) :
    m.pending src = [] := by
  rw [Monitor.pending, hd, hc]
  dsimp only
  rw [transferPart_of_head hh]
  rfl

theorem Monitor.pending_of_id {m : Monitor} {frame : Bytes} (hd : m.duty = .idle)
    (hc : m.call = .frame frame) (hid : readTransferId frame = some src) {src' : UInt32}
    (hne : src' ≠ src) : m.pending src' = [] := by
  rw [Monitor.pending, hd, hc]
  dsimp only
  rw [transferPart_of_id]
  · rfl
  · rw [hid]
    exact fun ht => hne (Option.some.inj ht).symm

theorem relayed_same (hrel : ∀ o, (Event.did c op answer).relayed o = none) (o : UInt32) :
    relayed (log ++ [.did c op answer]) o = relayed log o := by
  rw [relayed_concat, hrel, Option.toList_none, List.append_nil]

/-- The route under `src` is no longer live, and its receiver is owed an ERROR if it was. -/
theorem Relay.ended (h : Relay x log) (hinv : x.routes.Inv)
    (hn : x'.routes.nextOutboundTransferId = x.routes.nextOutboundTransferId)
    (hrel : ∀ o, (Event.did c op answer).relayed o = none)
    (halloc : (Event.did c op answer).allocates = false)
    (hlive : x'.routes.live = Function.update x.routes.live (c, src) none)
    (hrest : ∀ src' r, x.routes.live (c, src') = some r → src' ≠ src → Flowing log c src' r)
    (hnext : ((monitor log c).next c op answer).duty = .owes [] ∨
      (monitor log c).duty.about ≠ some src ∧ ∃ r, x.routes.live (c, src) = some r ∧
        ((monitor log c).next c op answer).duty = owe (copyEndpoint r)) :
    Relay x' (log ++ [.did c op answer]) := by
  have hback : ∀ k r, x'.routes.live k = some r → k ≠ (c, src) ∧ x.routes.live k = some r := by
    intro k r hr
    rw [hlive] at hr
    by_cases hk : k = (c, src)
    · rw [hk, Function.update_self] at hr
      cases hr
    · rw [Function.update_of_ne hk] at hr
      exact ⟨hk, hr⟩
  have hflows : ∀ src' r, x'.routes.live (c, src') = some r →
      Flowing (log ++ [.did c op answer]) c src' r := by
    intro src' r hr
    obtain ⟨hk, hr⟩ := hback _ r hr
    exact (hrest src' r hr fun heq => hk (by rw [heq])).did (relayed_same hrel _)
  refine h.advance_silent hn hrel halloc (fun k r _ hr => (hback k r hr).2) ?_ ?_
  · rintro o (⟨src', r, hr, ho⟩ | ho)
    · exact .inl ⟨src', r, (hback _ r hr).2, ho⟩
    · rcases hnext with hnext | ⟨-, r, hr, hnext⟩
      · rw [hnext] at ho
        exact absurd ho List.not_mem_nil
      · rw [hnext, owe] at ho
        split at ho
        · exact absurd ho List.not_mem_nil
        · exact .inl ⟨src, r, hr, (List.mem_singleton.mp ho).symm⟩
  · rcases hnext with hnext | ⟨habout, r, hr, hnext⟩
    · exact .quit hnext hflows
    · obtain ⟨b, chunks, hflow, -⟩ := (h.client c).flows src r hr habout
      refine .oweOne hnext hflows ⟨b, chunks, hflow.append (relayed_same hrel _)⟩ ?_
      intro src' r' hr' ho
      obtain ⟨hk, hr'⟩ := hback _ r' hr'
      exact hk (live_inj hinv hr hr' ho).symm

theorem Relay.ended_idle (h : Relay x log) (hinv : x.routes.Inv)
    (hd : (monitor log c).duty = .idle)
    (hp : ∀ src', src' ≠ src → (monitor log c).pending src' = [])
    (hn : x'.routes.nextOutboundTransferId = x.routes.nextOutboundTransferId)
    (hrel : ∀ o, (Event.did c op answer).relayed o = none)
    (halloc : (Event.did c op answer).allocates = false)
    (hlive : x'.routes.live = Function.update x.routes.live (c, src) none)
    (hnext : ((monitor log c).next c op answer).duty = .owes [] ∨
      ∃ r, x.routes.live (c, src) = some r ∧
        ((monitor log c).next c op answer).duty = owe (copyEndpoint r)) :
    Relay x' (log ++ [.did c op answer]) := by
  have habout : ∀ src', (monitor log c).duty.about ≠ some src' := by
    intro src'
    rw [hd]
    simp [Duty.about]
  exact h.ended hinv hn hrel halloc hlive
    (fun src' r hr hne => (h.client c).flowing hr (habout src') (hp src' hne))
    (hnext.imp_right fun hr => ⟨habout src, hr⟩)

theorem Relay.ended_failed (h : Relay x log) (hinv : x.routes.Inv)
    (habout : (monitor log c).duty.about = some src)
    (hn : x'.routes.nextOutboundTransferId = x.routes.nextOutboundTransferId)
    (hrel : ∀ o, (Event.did c op answer).relayed o = none)
    (halloc : (Event.did c op answer).allocates = false)
    (hlive : x'.routes.live = Function.update x.routes.live (c, src) none)
    (hnext : ((monitor log c).next c op answer).duty = .owes []) :
    Relay x' (log ++ [.did c op answer]) :=
  h.ended hinv hn hrel halloc hlive
    (fun _ _ hr hne => ((h.client c).others habout hr hne).1) (.inl hnext)

theorem Relay.routesQuarantine (h : Relay x log) (hinv : x.routes.Inv) {keep : Bool}
    {answer : QuarantineAnswer} (hq : Quarantined x.routes c src keep x'.routes answer)
    (ha : (monitor log c).allow c name (.routesQuarantine c src keep)) :
    Relay x' (log ++ [.did c (.routesQuarantine c src keep) answer]) := by
  obtain ⟨hlive, hn, hanswer⟩ := hq.ended
  obtain ⟨-, ⟨hd, -⟩ | ⟨hd, frame, hc, hid⟩⟩ := ha
  · refine h.ended_failed hinv (by rw [hd]; rfl) hn (fun _ => rfl) rfl hlive ?_
    simp only [Monitor.next, Monitor.nextDuty, hd]
  · refine h.ended_idle hinv hd (fun _ => Monitor.pending_of_id hd hc hid) hn (fun _ => rfl) rfl
      hlive ?_
    rcases hanswer with hf | ⟨r, hr, hf, hprev⟩
    · refine .inl ?_
      simp only [Monitor.next, Monitor.nextDuty, hd, hf, Bool.false_eq_true, if_false]
    · refine .inr ⟨r, hr, ?_⟩
      simp only [Monitor.next, Monitor.nextDuty, hd, hf, if_true, hprev]

theorem Relay.routesMarkForwardFailed (h : Relay x log) (hinv : x.routes.Inv) {o : UInt32}
    {answer : Bool} (hq : Marked x.routes c src o x'.routes answer)
    (ha : (monitor log c).allow c name (.routesMarkForwardFailed c src o)) :
    Relay x' (log ++ [.did c (.routesMarkForwardFailed c src o) answer]) := by
  obtain ⟨-, hd⟩ := ha
  have hlive : x'.routes.live = Function.update x.routes.live (c, src) none ∧
      x'.routes.nextOutboundTransferId = x.routes.nextOutboundTransferId := by
    generalize x'.routes = t' at hq
    cases hq with
    | converted hk ho hl hn =>
      refine ⟨live_ended hl fun r' hr' => ?_, hn⟩
      cases hr'
      rfl
    | kept hk =>
      -- a live route under this key would be the one whose forward failed
      refine ⟨?_, rfl⟩
      have hnone : x.routes.live (c, src) = none := by
        cases hr : x.routes.live (c, src) with
        | none => rfl
        | some r => exact absurd ((h.client c).fails src o hd r hr) (hk r hr)
      rw [← hnone, Function.update_eq_self]
  exact h.ended_failed hinv (by rw [hd]; rfl) hlive.2 (fun _ => rfl) rfl hlive.1 rfl

theorem ClientOk.forwarding {t : FileRoutes} {m : Monitor} {endpoint : FileRouteEndpoint}
    {data : Bytes} (hd : m.duty = .chunkForward src endpoint data)
    (hothers : ∀ src' r, t.live (c, src') = some r → src' ≠ src → Flowing log c src' r)
    (hforwards : ∃ b chunks, Flow log c endpoint.targetId endpoint.outboundTransferId b chunks ∧
      Source log c src b (chunks.map some ++ [some data]) ∧
      chunks.flatten.length + data.length ≤ b.fileSize.toNat ∧ ∀ r, t.live (c, src) = some r →
        endpoint = copyEndpoint r ∧ r.expectedSize = b.fileSize ∧
        r.forwardedSize.toNat = chunks.flatten.length + data.length)
    (hapart : ∀ src' r, t.live (c, src') = some r →
      r.outboundTransferId = endpoint.outboundTransferId → src' = src) : ClientOk t log c m := by
  have habout : m.duty.about = some src := by rw [hd]; rfl
  refine ⟨?_, ?_, ?_, ?_, ?_, ?_, ?_⟩
  · intro src' r hr ha
    have hne : src' ≠ src := by
      rintro rfl
      exact ha habout
    obtain ⟨b, chunks, hflow, hsource, hrest⟩ := hothers src' r hr hne
    refine ⟨b, chunks, hflow, ?_, hrest⟩
    rw [Monitor.pending, hd]
    dsimp only
    rwa [if_neg (Ne.symm hne), List.append_nil]
  · intro src' endpoint' b hm
    rw [hd] at hm
    cases hm
  · intro src' endpoint' data' hm
    rw [hd] at hm
    cases hm
    exact hforwards
  · intro src' o hm
    rw [hd] at hm
    cases hm
  · intro endpoint' hm
    rw [hd] at hm
    cases hm
  · intro endpoints hm
    rw [hd] at hm
    cases hm
  · intro src' r hr ho
    rw [hd] at ho
    rw [habout, hapart src' r hr (List.mem_singleton.mp ho)]

theorem Relay.routesAcceptChunk (h : Relay x log) (hinv : x.routes.Inv) {len : UInt64}
    {answer : ChunkAnswer} (hq : Chunked x.routes c src len x'.routes answer)
    (ha : (monitor log c).allow c name (.routesAcceptChunk c src len)) :
    Relay x' (log ++ [.did c (.routesAcceptChunk c src len) answer]) := by
  obtain ⟨-, hd, frame, chunk, hc, hchunk, rfl, rfl⟩ := ha
  have hid := (decodeChunk_some hchunk).2.1
  have hp : ∀ src', src' ≠ chunk.transferId → (monitor log c).pending src' = [] :=
    fun _ => Monitor.pending_of_id hd hc hid
  by_cases hready : answer.result = .ready
  · generalize ht' : x'.routes = t' at hq
    cases hq with
    | @ready _ r r' hk hr' hsum hle hl hn =>
      have hlive : x'.routes.live = Function.update x.routes.live (c, chunk.transferId)
        (some r') := by
        rw [ht', live_update hl, Option.filter_some, if_pos]
        rw [hr']
        simpa using (live_eq_some.mp hk).2
      have hout : r'.outboundTransferId = r.outboundTransferId := by rw [hr']
      have hlen : (UInt64.ofNat chunk.data.length).toNat = chunk.data.length := by
        have hsmall := (decodeChunk_some hchunk).2.2.2
        rw [fileChunkSize] at hsmall
        rw [UInt64.toNat_ofNat', Nat.mod_eq_of_lt (by omega)]
      rw [hlen] at hsum hle
      have hnext : ((monitor log c).next c (.routesAcceptChunk c chunk.transferId
          (UInt64.ofNat chunk.data.length)) { result := .ready, endpoint := copyEndpoint r }).duty =
            .chunkForward chunk.transferId (copyEndpoint r) chunk.data := by
        simp only [Monitor.next, Monitor.nextDuty, hc, hchunk]
      have habout : ∀ src', (monitor log c).duty.about ≠ some src' := by
        intro src'
        rw [hd]
        simp [Duty.about]
      -- the routes afterwards: this one advanced, the others as before
      have hback : ∀ k ρ, x'.routes.live k = some ρ → k = (c, chunk.transferId) ∧ ρ = r' ∨
          k ≠ (c, chunk.transferId) ∧ x.routes.live k = some ρ := by
        intro k ρ hρ
        rw [hlive] at hρ
        by_cases hk : k = (c, chunk.transferId)
        · rw [hk, Function.update_self] at hρ
          exact .inl ⟨hk, (Option.some.inj hρ).symm⟩
        · rw [Function.update_of_ne hk] at hρ
          exact .inr ⟨hk, hρ⟩
      refine h.advance_silent (by rw [ht', hn]) (fun _ => rfl) rfl ?_ ?_ ?_
      · intro k ρ hkc hρ
        rcases hback k ρ hρ with ⟨rfl, -⟩ | ⟨-, hρ⟩
        · exact absurd rfl hkc
        · exact hρ
      · rintro o (⟨src', ρ, hρ, ho⟩ | ho)
        · rcases hback _ ρ hρ with ⟨-, rfl⟩ | ⟨-, hρ⟩
          · exact .inl ⟨_, r, hk, hout ▸ ho⟩
          · exact .inl ⟨src', ρ, hρ, ho⟩
        · rw [hnext] at ho
          exact .inl ⟨_, r, hk, (List.mem_singleton.mp ho).symm⟩
      · obtain ⟨b, chunks, hflow, hsource, hsize, hfwd⟩ := (h.client c).flows _ r hk (habout _)
        rw [Monitor.pending, hd, hc] at hsource
        dsimp only at hsource
        rw [transferPart_of_decodeChunk hchunk, Option.toList_some] at hsource
        refine .forwarding hnext ?_ ⟨b, chunks, hflow.append (relayed_same (fun _ => rfl) _),
          hsource.did _ _ _, ?_, ?_⟩ ?_
        · intro src' ρ hρ hne
          rcases hback _ ρ hρ with ⟨heq, -⟩ | ⟨-, hρ⟩
          · exact absurd (congrArg Prod.snd heq) hne
          · exact ((h.client c).flowing hρ (habout _) (hp src' hne)).did
              (relayed_same (fun _ => rfl) _)
        · rw [← hsize, ← hfwd]
          exact hle
        · intro ρ hρ
          rcases hback _ ρ hρ with ⟨-, rfl⟩ | ⟨hne, -⟩
          · refine ⟨by rw [hr']; rfl, by rw [hr', hsize], ?_⟩
            rw [hsum, hfwd]
          · exact absurd rfl hne
        · intro src' ρ hρ ho
          rcases hback _ ρ hρ with ⟨heq, -⟩ | ⟨-, hρ⟩
          · exact congrArg Prod.snd heq
          · exact congrArg Prod.snd (live_inj hinv hρ hk ho)
    | _ => cases hready
  -- any other answer forwards nothing
  · obtain ⟨hlive, hn, hanswer⟩ := hq.ended hready
    refine h.ended_idle hinv hd hp hn (fun _ => rfl) rfl hlive ?_
    rcases hanswer with hne | ⟨r, hr, heq, hend⟩
    · refine .inl ?_
      simp only [Monitor.next, Monitor.nextDuty]
      cases hres : answer.result with
      | ready => exact absurd hres hready
      | overrun => exact absurd hres hne
      | discard => rfl
      | missing => rfl
    · refine .inr ⟨r, hr, ?_⟩
      simp only [Monitor.next, Monitor.nextDuty, heq, hend]

theorem ClientOk.ending {t : FileRoutes} {m : Monitor} {endpoint : FileRouteEndpoint}
    (hd : m.duty = .endForward endpoint)
    (hflows : ∀ src r, t.live (c, src) = some r → Flowing log c src r)
    (hends : ∃ src b chunks, Flow log c endpoint.targetId endpoint.outboundTransferId b chunks ∧
      Sent log c src b chunks ∧ chunks.flatten.length = b.fileSize.toNat)
    (hapart : ∀ src r, t.live (c, src) = some r →
      endpoint.outboundTransferId ≠ r.outboundTransferId) : ClientOk t log c m := by
  refine ⟨?_, ?_, ?_, ?_, ?_, ?_, ?_⟩
  · intro src r hr _
    obtain ⟨b, chunks, hflow, hsource, hrest⟩ := hflows src r hr
    refine ⟨b, chunks, hflow, ?_, hrest⟩
    rwa [Monitor.pending, hd, List.append_nil]
  · intro src endpoint' b hm
    rw [hd] at hm
    cases hm
  · intro src endpoint' data hm
    rw [hd] at hm
    cases hm
  · intro src o hm
    rw [hd] at hm
    cases hm
  · intro endpoint' hm
    rw [hd] at hm
    cases hm
    exact hends
  · intro endpoints hm
    rw [hd] at hm
    cases hm
  · intro src r hr ho
    rw [hd] at ho
    exact absurd (List.mem_singleton.mp ho).symm (hapart src r hr)

theorem Relay.routesFinish (h : Relay x log) (hinv : x.routes.Inv) {validate : Bool}
    {answer : FinishAnswer} (hq : Finished x.routes c src validate x'.routes answer)
    (ha : (monitor log c).allow c name (.routesFinish c src validate)) :
    Relay x' (log ++ [.did c (.routesFinish c src validate) answer]) := by
  obtain ⟨hlive, hn, hanswer⟩ := hq.ended
  obtain ⟨-, hd, frame, hc, hframe⟩ := ha
  have hid : readTransferId frame = some src := by
    rcases hframe with ⟨-, hdec⟩ | ⟨-, hdec⟩ <;> exact (decodeControl_ok hdec).2
  have hp : ∀ src', src' ≠ src → (monitor log c).pending src' = [] :=
    fun _ => Monitor.pending_of_id hd hc hid
  have habout : ∀ src', (monitor log c).duty.about ≠ some src' := by
    intro src'
    rw [hd]
    simp [Duty.about]
  rcases hanswer with hres | hres | ⟨r, hr, hres, hend⟩
  · refine h.ended_idle hinv hd hp hn (fun _ => rfl) rfl hlive (.inl ?_)
    simp only [Monitor.next, Monitor.nextDuty, hres]
  · refine h.ended_idle hinv hd hp hn (fun _ => rfl) rfl hlive (.inl ?_)
    simp only [Monitor.next, Monitor.nextDuty, hres]
  -- END with all bytes forwarded, and everything else that ends the route
  · by_cases hcomplete : validate = true ∧ r.forwardedSize = r.expectedSize
    · obtain ⟨rfl, hsize⟩ := hcomplete
      rw [if_neg fun hne => hne.2 hsize] at hres
      have hnext : ((monitor log c).next c (.routesFinish c src true) answer).duty =
          .endForward (copyEndpoint r) := by
        simp only [Monitor.next, Monitor.nextDuty, hres, if_true, hend]
      have hdec : decodeControl frame .fileEnd = .ok src := by
        rcases hframe with ⟨-, hdec⟩ | ⟨hv, -⟩
        · exact hdec
        · cases hv
      have hback : ∀ k ρ, x'.routes.live k = some ρ → k ≠ (c, src) ∧ x.routes.live k = some ρ := by
        intro k ρ hρ
        rw [hlive] at hρ
        by_cases hk : k = (c, src)
        · rw [hk, Function.update_self] at hρ
          cases hρ
        · rw [Function.update_of_ne hk] at hρ
          exact ⟨hk, hρ⟩
      refine h.advance_silent hn (fun _ => rfl) rfl (fun k ρ _ hρ => (hback k ρ hρ).2) ?_ ?_
      · rintro o (⟨src', ρ, hρ, ho⟩ | ho)
        · exact .inl ⟨src', ρ, (hback _ ρ hρ).2, ho⟩
        · rw [hnext] at ho
          exact .inl ⟨src, r, hr, (List.mem_singleton.mp ho).symm⟩
      · obtain ⟨b, chunks, hflow, hsource, hexp, hsum⟩ := (h.client c).flows src r hr (habout _)
        rw [Monitor.pending, hd, hc] at hsource
        dsimp only at hsource
        rw [transferPart_of_end hdec, Option.toList_some] at hsource
        refine .ending hnext ?_ ⟨src, b, chunks, hflow.append (relayed_same (fun _ => rfl) _),
          (hsource.sent hc hdec).append _, ?_⟩ ?_
        · intro src' ρ hρ
          obtain ⟨hk, hρ⟩ := hback _ ρ hρ
          exact ((h.client c).flowing hρ (habout _) (hp src' fun heq => hk (by rw [heq]))).did
            (relayed_same (fun _ => rfl) _)
        · rw [← hsum, hsize, hexp]
        · intro src' ρ hρ ho
          exact (hback _ ρ hρ).1 (live_inj hinv hr (hback _ ρ hρ).2 ho).symm
    · refine h.ended_idle hinv hd hp hn (fun _ => rfl) rfl hlive (.inr ⟨r, hr, ?_⟩)
      simp only [Monitor.next, Monitor.nextDuty, hres, hend]
      by_cases hv : validate = true
      · rw [if_pos ⟨hv, fun hsize => hcomplete ⟨hv, hsize⟩⟩]
      · rw [if_neg fun hne => hv hne.1]
        dsimp only
        rw [if_neg hv]

theorem Relay.allocate (h : Relay x log) (hinv : x.routes.Inv) (hlt : allocated log + 1 < 2 ^ 32) :
    x.routes.allocateOutboundId.1 = UInt32.ofNat (allocated log + 1) ∧
    x.routes.allocateOutboundId.2.nextOutboundTransferId = UInt32.ofNat (allocated log + 1 + 1) ∧
    (UInt32.ofNat (allocated log + 1)).toNat = allocated log + 1 := by
  have hnat : (UInt32.ofNat (allocated log + 1)).toNat = allocated log + 1 := by
    rw [UInt32.toNat_ofNat', Nat.mod_eq_of_lt hlt]
  have hne : UInt32.ofNat (allocated log + 1) ≠ 0 := by
    intro h0
    rw [h0] at hnat
    cases hnat
  have hfree : x.routes.inUse (UInt32.ofNat (allocated log + 1)) = false := by
    refine inUse_eq_false_of_live hinv fun k r hr ho => ?_
    have := h.known k.1 r.outboundTransferId (.inl ⟨k.2, r, hr, rfl⟩)
    rw [ho, hnat] at this
    omega
  rw [allocateOutboundId_first (by rw [h.counter hlt]; exact hne)
    (by rw [h.counter hlt]; exact hfree),
    h.counter hlt]
  refine ⟨rfl, ?_, hnat⟩
  dsimp only
  rw [UInt32.ofNat_add (allocated log + 1) 1]
  rfl

theorem ClientOk.beginning {t : FileRoutes} {m : Monitor} {endpoint : FileRouteEndpoint}
    {b : FileBeginFrame} (hd : m.duty = .beginForward src endpoint b)
    (hothers : ∀ src' r, t.live (c, src') = some r → src' ≠ src → Flowing log c src' r)
    (hbegins : relayed log endpoint.outboundTransferId = [] ∧ Source log c src b [] ∧
      Named log endpoint.targetId b.peer ∧ ∀ r, t.live (c, src) = some r →
        endpoint = copyEndpoint r ∧ r.expectedSize = b.fileSize ∧ r.forwardedSize.toNat = 0)
    (hapart : ∀ src' r, t.live (c, src') = some r →
      r.outboundTransferId = endpoint.outboundTransferId → src' = src) : ClientOk t log c m := by
  have habout : m.duty.about = some src := by rw [hd]; rfl
  refine ⟨?_, ?_, ?_, ?_, ?_, ?_, ?_⟩
  · intro src' r hr ha
    obtain ⟨b, chunks, hflow, hsource, hrest⟩ := hothers src' r hr (by
      rintro rfl
      exact ha habout)
    refine ⟨b, chunks, hflow, ?_, hrest⟩
    rwa [Monitor.pending, hd, List.append_nil]
  · intro src' endpoint' b' hm
    rw [hd] at hm
    cases hm
    exact hbegins
  · intro src' endpoint' data hm
    rw [hd] at hm
    cases hm
  · intro src' o hm
    rw [hd] at hm
    cases hm
  · intro endpoint' hm
    rw [hd] at hm
    cases hm
  · intro endpoints hm
    rw [hd] at hm
    cases hm
  · intro src' r hr ho
    rw [hd] at ho
    rw [habout, hapart src' r hr (List.mem_singleton.mp ho)]

/-- The BEGIN that `c` is just being served for. -/
theorem Source.begin {frame : Bytes} {b : FileBeginFrame}
    (hc : (monitor log c).call = .frame frame) (hb : decodeBegin frame = some b) :
    Source log c b.transferId b [] := by
  obtain ⟨before, after, hlog, hlast⟩ := monitor_call hc
  exact ⟨before, frame, after, hlog, hb, rfl, sentParts_eq_nil hlast⟩

theorem Relay.opened (h : Relay x log) {frame : Bytes} {b : FileBeginFrame} {tgt : ClientId}
    {o : UInt32} (hc : (monitor log c).call = .frame frame)
    (hb : decodeBegin frame = some b)
    (hflowing : ∀ src' r, x.routes.live (c, src') = some r → Flowing log c src' r)
    (hlive : x'.routes.live = Function.update x.routes.live (c, b.transferId) (some
      { active := true, senderId := c, targetId := tgt, sourceTransferId := b.transferId,
        outboundTransferId := o, expectedSize := b.fileSize }))
    (ho : o.toNat = allocated log + 1)
    (hn : x'.routes.nextOutboundTransferId = UInt32.ofNat (allocated log + 1 + 1))
    (hnamed : Named log tgt b.peer) (discard : Bool) :
    Relay x' (log ++ [.did c (.routesAdd c b.transferId tgt b.fileSize discard)
      { result := .ready, endpoint := { targetId := tgt, outboundTransferId := o } }]) := by
  have halloc : allocated (log ++ [.did c (.routesAdd c b.transferId tgt b.fileSize discard)
      { result := .ready, endpoint := { targetId := tgt, outboundTransferId := o } }]) =
        allocated log + 1 := by
    rw [allocated_concat]
    rfl
  have hnext : ((monitor log c).next c (.routesAdd c b.transferId tgt b.fileSize discard)
      { result := .ready, endpoint := { targetId := tgt, outboundTransferId := o } }).duty =
        .beginForward b.transferId { targetId := tgt, outboundTransferId := o } b := by
    simp only [Monitor.next, Monitor.nextDuty, hc, hb]
  have hback : ∀ k ρ, x'.routes.live k = some ρ → k = (c, b.transferId) ∧ ρ =
        { active := true, senderId := c, targetId := tgt, sourceTransferId := b.transferId,
          outboundTransferId := o, expectedSize := b.fileSize } ∨
      k ≠ (c, b.transferId) ∧ x.routes.live k = some ρ := by
    intro k ρ hρ
    rw [hlive] at hρ
    by_cases hk : k = (c, b.transferId)
    · rw [hk, Function.update_self] at hρ
      exact .inl ⟨hk, (Option.some.inj hρ).symm⟩
    · rw [Function.update_of_ne hk] at hρ
      exact .inr ⟨hk, hρ⟩
  -- an id just handed out is no live route's
  have hnew : ∀ {k : FileRoutes.Key} {ρ : FileRoute}, x.routes.live k = some ρ →
      ρ.outboundTransferId ≠ o := by
    intro k ρ hρ heq
    have := h.known k.1 ρ.outboundTransferId (.inl ⟨k.2, ρ, hρ, rfl⟩)
    rw [heq, ho] at this
    omega
  refine h.advance ?_ ?_ ?_ (fun _ => .inl (relayed_same (fun _ => rfl) _))
    (.beginning hnext ?_ ⟨?_, (Source.begin hc hb).did _ _ _, hnamed.append _, ?_⟩ ?_)
  · rw [halloc]
    exact fun _ => hn
  · intro k ρ hkc hρ
    rcases hback k ρ hρ with ⟨rfl, -⟩ | ⟨-, hρ⟩
    · exact absurd rfl hkc
    · exact hρ
  · have hfresh : allocated log < o.toNat ∧ o.toNat ≤ allocated log + 1 := by omega
    rw [halloc]
    rintro o' (⟨src', ρ, hρ, ho'⟩ | ho')
    · rcases hback _ ρ hρ with ⟨-, rfl⟩ | ⟨-, hρ⟩
      · exact .inr (ho' ▸ hfresh)
      · exact .inl (.inl ⟨src', ρ, hρ, ho'⟩)
    · rw [hnext] at ho'
      rw [List.mem_singleton.mp ho']
      exact .inr hfresh
  · intro src' ρ hρ hne
    rcases hback _ ρ hρ with ⟨heq, -⟩ | ⟨-, hρ⟩
    · exact absurd (congrArg Prod.snd heq) hne
    · exact (hflowing src' ρ hρ).did (relayed_same (fun _ => rfl) _)
  · rw [relayed_same fun _ => rfl]
    by_contra hne
    have := h.born o hne
    omega
  · intro ρ hρ
    rcases hback _ ρ hρ with ⟨-, rfl⟩ | ⟨hne, -⟩
    · exact ⟨rfl, rfl, rfl⟩
    · exact absurd rfl hne
  · intro src' ρ hρ ho'
    rcases hback _ ρ hρ with ⟨heq, -⟩ | ⟨-, hρ⟩
    · exact congrArg Prod.snd heq
    · exact absurd ho' (hnew hρ)

theorem Relay.routesAdd (h : Relay x log) (hinv : x.routes.Inv) {tgt : ClientId} {size : UInt64}
    {discard : Bool} {answer : AddAnswer}
    (hq : Added x.routes c src tgt size discard x'.routes answer)
    (ha : (monitor log c).allow c name (.routesAdd c src tgt size discard))
    (hfound : ∀ nm r, (monitor log c).found = some (nm, r) → r ≠ invalidClientId → Named log r nm)
    (hlt : allocated (log ++ [.did c (.routesAdd c src tgt size discard) answer]) < 2 ^ 32) :
    Relay x' (log ++ [.did c (.routesAdd c src tgt size discard) answer]) := by
  obtain ⟨-, hd, frame, b, hc, hb, rfl, rfl, hf, hdiscard⟩ := ha
  have hhead : (frame.head?.bind FrameType.ofByte).any FrameType.continues = false := by
    rw [(decodeBegin_some hb).1]
    rfl
  have hp := Monitor.pending_of_head hd hc hhead
  have hflowing : ∀ src' r, x.routes.live (c, src') = some r → Flowing log c src' r :=
    fun src' r hr => (h.client c).flowing hr (by rw [hd]; simp [Duty.about]) (hp src')
  -- no id at all: below the bound that does not happen
  by_cases havail : answer.result = .idUnavailable
  · generalize ht' : x'.routes = t' at hq
    cases hq with
    | unavailable _ ha hl =>
      have hlive : x'.routes.live = x.routes.live := by rw [ht', live_congr hl]
      refine h.advance ?_ (fun k r _ hr => hlive ▸ hr) ?_
        (fun _ => .inl (relayed_same (fun _ => rfl) _)) (.quit rfl ?_)
      · intro hsmall
        exfalso
        rw [allocated_concat] at hsmall
        obtain ⟨halloc, -, hnat⟩ := h.allocate hinv hsmall
        rw [← halloc, ha] at hnat
        cases hnat
      · rintro o (⟨src', r, hr, ho⟩ | ho)
        · exact .inl (.inl ⟨src', r, hlive ▸ hr, ho⟩)
        · exact absurd ho List.not_mem_nil
      · intro src' r hr
        rw [hlive] at hr
        exact (hflowing src' r hr).did (relayed_same (fun _ => rfl) _)
    | _ => cases havail
  -- READY: the route gets the next id
  by_cases hready : answer.result = .ready
  · generalize ht' : x'.routes = t' at hq
    cases hq with
    | @ready _ o hk hdis ho ho0 hl hn =>
      have halloc : allocated (log ++ [.did c (.routesAdd c b.transferId tgt b.fileSize discard)
          { result := .ready, endpoint := { targetId := tgt, outboundTransferId := o } }]) =
            allocated log + 1 := by
        rw [allocated_concat]
        rfl
      rw [halloc] at hlt
      obtain ⟨hfirst, hcounter, hnat⟩ := h.allocate hinv hlt
      rw [← hfirst, ho] at hnat
      have htgt : tgt ≠ invalidClientId := by
        rintro rfl
        rw [hdis] at hdiscard
        cases hdiscard
      refine h.opened hc hb hflowing ?_ hnat (by rw [ht', hn, hcounter]) (hfound _ _ hf htgt)
        discard
      rw [ht', live_update hl]
      rfl
    | _ => cases hready
  -- every other answer opens nothing
  · obtain ⟨hlive, hn, hanswer⟩ := hq.ended hready havail
    refine h.ended_idle hinv hd (fun src' _ => hp src') hn (fun _ => rfl) ?_ hlive ?_
    · exact beq_eq_false_iff_ne.mpr hready
    · rcases hanswer with hne | ⟨heq, hnone⟩ | ⟨r, hr, heq, hrep⟩
      · refine .inl ?_
        simp only [Monitor.next, Monitor.nextDuty]
        cases hres : answer.result with
        | ready => exact absurd hres hready
        | duplicate => exact absurd hres hne
        | _ => rfl
      · refine .inl ?_
        simp only [Monitor.next, Monitor.nextDuty, heq, hnone, owe]
        rfl
      · refine .inr ⟨r, hr, ?_⟩
        simp only [Monitor.next, Monitor.nextDuty, heq, hrep]

theorem Relay.routesAbortClient (h : Relay x log) (hinv : x.routes.Inv) {capacity : ℕ}
    (hx : x'.routes = (x.routes.abortClient c capacity).1)
    (ha : (monitor log c).allow c name (.routesAbortClient c capacity)) :
    Relay x' (log ++ [.did c (.routesAbortClient c capacity)
      (x.routes.abortClient c capacity).2]) := by
  obtain ⟨-, hd, hcall, rfl⟩ := ha
  have hn : x'.routes.nextOutboundTransferId = x.routes.nextOutboundTransferId := by
    rw [hx, abortClient_next]
  have habout : ∀ src', (monitor log c).duty.about ≠ some src' := by
    intro src'
    rw [hd]
    simp [Duty.about]
  -- a thread without a client sweeps nothing
  by_cases hc : c = invalidClientId
  · have habort : x.routes.abortClient c fileRouteCapacity = (x.routes, []) := by
      rw [FileRoutes.abortClient, if_pos hc]
    rw [habort] at hx ⊢
    dsimp only at hx
    refine h.advance_silent hn (fun _ => rfl) rfl (fun k r _ hr => hx ▸ hr) ?_ (.quit rfl ?_)
    · rintro o (⟨src', r, hr, ho⟩ | ho)
      · exact .inl ⟨src', r, hx ▸ hr, ho⟩
      · exact absurd ho List.not_mem_nil
    · intro src' r hr
      rw [hx] at hr
      refine ((h.client c).flowing hr (habout src') ?_).did (relayed_same (fun _ => rfl) _)
      rw [Monitor.pending, hd, hcall]
  -- what is left live neither starts nor ends at this client
  · have hback : ∀ k r, x'.routes.live k = some r →
        x.routes.live k = some r ∧ k.1 ≠ c ∧ r.targetId ≠ c := by
      intro k r hr
      rw [hx] at hr
      exact (abortClient_live hinv hc _).mp hr
    refine h.advance_silent hn (fun _ => rfl) rfl (fun k r _ hr => (hback k r hr).1) ?_
      (.owing rfl ?_ (nodup_abortClient_errors hinv hc) ?_ ?_)
    · rintro o (⟨src', r, hr, ho⟩ | ho)
      · exact .inl ⟨src', r, (hback _ r hr).1, ho⟩
      · obtain ⟨endpoint, hmem, rfl⟩ := List.mem_map.mp ho
        obtain ⟨src', r, hr, -, -, rfl⟩ := (mem_abortClient_errors hinv hc).mp hmem
        exact .inl ⟨src', r, hr, rfl⟩
    · intro src' r hr
      exact absurd rfl (hback _ r hr).2.1
    · intro endpoint hmem
      obtain ⟨src', r, hr, -, -, rfl⟩ := (mem_abortClient_errors hinv hc).mp hmem
      obtain ⟨b, chunks, hflow, -⟩ := (h.client c).flows src' r hr (habout src')
      exact ⟨b, chunks, hflow.append (relayed_same (fun _ => rfl) _)⟩
    · intro src' r hr
      exact absurd rfl (hback _ r hr).2.1

end Routes

section Step

variable {x : Shared} {log : List Event} {c : ClientId} {name : Bytes}

theorem Relay.queueOther (h : Relay x log) {x' : Shared} (hroutes : x'.routes = x.routes)
    {r : ClientId} {type : FrameType} {payload : Bytes} (ht : type.isFile = false)
    (answer : Except Errno Unit) :
      Relay x' (log ++ [.did c (.queueFrame r type payload) answer]) := by
  refine h.neutral hroutes ?_ (fun o => ?_) rfl
  · change (monitor log c).nextDuty (.queueFrame r type payload) answer = _
    exact Monitor.nextDuty_other ht
  · cases answer with
    | error e => rfl
    | ok _ =>
      rw [Event.relayed, if_neg]
      rw [ht]
      exact fun hf => by cases hf.1

theorem Relay.did (h : Relay x log) (hinv : x.routes.Inv) (hname : Named log c name) {o : Op}
    (ha : (monitor log c).allow c name o)
    (hfound : ∀ nm r, (monitor log c).found = some (nm, r) → r ≠ invalidClientId → Named log r nm)
    (libc : Libc) (hlt : allocated (log ++ [.did c o (perform libc x o).1]) < 2 ^ 32) :
    Relay (perform libc x o).2 (log ++ [.did c o (perform libc x o).1]) := by
  cases o with
  | findClientId name => exact h.neutral rfl rfl (fun _ => rfl) rfl
  | registerClientPublicKey r key =>
    simp only [perform, Shared.onClients]
    exact h.neutral rfl rfl (fun _ => rfl) rfl
  | getClientPublicKey r => exact h.neutral rfl rfl (fun _ => rfl) rfl
  | recipients r => exact h.neutral rfl rfl (fun _ => rfl) rfl
  | readyNames => exact h.neutral rfl rfl (fun _ => rfl) rfl
  | queueFrame r type payload =>
    have hroutes : (perform libc x (.queueFrame r type payload)).2.routes = x.routes := rfl
    generalize (perform libc x (.queueFrame r type payload)).1 = answer
    cases type with
    | fileBegin =>
      obtain ⟨src, endpoint, b, hd, rfl, henc⟩ := ha
      exact h.queueBegin hroutes hname hd henc answer
    | fileChunk =>
      obtain ⟨src, endpoint, data, hd, rfl, henc⟩ := ha
      exact h.queueChunk hroutes hd henc answer
    | fileEnd =>
      obtain ⟨endpoint, hd, rfl, rfl⟩ := ha
      exact h.queueEnd hroutes hd answer
    | fileError =>
      obtain ⟨endpoint, rest, hd, rfl, rfl⟩ := ha
      exact h.queueError hroutes hd answer
    | _ => exact h.queueOther hroutes rfl answer
  | routesAdd s src tgt size discard =>
    obtain rfl := ha.1
    simp only [perform, Shared.onRoutes] at hlt ⊢
    refine h.routesAdd hinv ?_ ha hfound hlt
    dsimp only
    exact add_added hinv s src tgt size discard
  | routesQuarantine s src keep =>
    obtain rfl := ha.1
    simp only [perform, Shared.onRoutes]
    refine h.routesQuarantine hinv ?_ ha
    dsimp only
    exact quarantine_quarantined hinv s src keep
  | routesAcceptChunk s src len =>
    obtain rfl := ha.1
    simp only [perform, Shared.onRoutes]
    refine h.routesAcceptChunk hinv ?_ ha
    dsimp only
    exact acceptChunk_chunked hinv s src len
  | routesMarkForwardFailed s src o =>
    obtain rfl := ha.1
    simp only [perform, Shared.onRoutes]
    refine h.routesMarkForwardFailed hinv ?_ ha
    dsimp only
    exact markForwardFailed_marked hinv s src o
  | routesFinish s src validate =>
    obtain rfl := ha.1
    simp only [perform, Shared.onRoutes]
    refine h.routesFinish hinv ?_ ha
    dsimp only
    exact finish_finished hinv s src validate
  | routesAbortClient r capacity =>
    obtain rfl := ha.1
    simp only [perform, Shared.onRoutes]
    exact h.routesAbortClient hinv rfl ha

theorem Relay.quiet (h : Relay x log) {x' : Shared} {evs : List Event}
    (hroutes : x'.routes = x.routes) (hrel : ∀ e ∈ evs, ∀ o, e.relayed o = none)
    (halloc : ∀ e ∈ evs, e.allocates = false)
    (hids : ∀ c, (monitor (log ++ evs) c).duty.ids = (monitor log c).duty.ids)
    (hclient : ∀ c, ClientOk x.routes (log ++ evs) c (monitor (log ++ evs) c)) :
    Relay x' (log ++ evs) := by
  have hsame : ∀ o, relayed (log ++ evs) o = relayed log o :=
    fun o => relayed_append_of_none fun e he => hrel e he o
  have hcount : allocated (log ++ evs) = allocated log := by
    have hzero : evs.countP Event.allocates = 0 :=
      List.countP_eq_zero.mpr fun e he => by simp [halloc e he]
    rw [allocated, List.countP_append, hzero]
    rfl
  have hholds : ∀ c o, Holds x'.routes (monitor (log ++ evs) c) c o →
      Holds x.routes (monitor log c) c o := by
    intro c o ho
    rw [Holds, hids, hroutes] at ho
    exact ho
  refine ⟨?_, ?_, ?_, ?_, ?_, ?_⟩
  · rw [hroutes, hcount]
    exact h.counter
  · intro c o ho
    rw [hcount]
    exact h.known c o (hholds c o ho)
  · intro o ho
    rw [hcount]
    exact h.born o (hsame o ▸ ho)
  · exact fun c c' o ho ho' => h.holder c c' o (hholds c o ho) (hholds c' o ho')
  · rw [hroutes]
    exact hclient
  · intro o
    obtain ⟨st, hst, hdel⟩ := h.stream o
    exact ⟨st, (hsame o).symm ▸ hst, fun target b chunks hc => (hdel target b chunks hc).append evs⟩

theorem Relay.call (h : Relay x log) {x' : Shared} {e : Event} (hroutes : x'.routes = x.routes)
    (hrel : ∀ o, e.relayed o = none) (halloc : e.allocates = false) (he : e.client = some c)
    (hids : (monitor (log ++ [e]) c).duty.ids = (monitor log c).duty.ids)
    (hself : ClientOk x.routes (log ++ [e]) c (monitor (log ++ [e]) c)) :
    Relay x' (log ++ [e]) := by
  have hother : ∀ c', c ≠ c' → monitor (log ++ [e]) c' = monitor log c' :=
    fun c' hne => monitor_of_ne he hne
  refine h.quiet hroutes (fun e' he' o => ?_) (fun e' he' => ?_) (fun c' => ?_) (fun c' => ?_)
  · rw [List.mem_singleton.mp he', hrel]
  · rw [List.mem_singleton.mp he', halloc]
  · by_cases hc : c = c'
    · rw [← hc, hids]
    · rw [hother c' hc]
  · by_cases hc : c = c'
    · rw [← hc]
      exact hself
    · rw [hother c' hc]
      have hnone : ∀ src, sentParts c' src [e] = [] := by
        intro src
        refine sentParts_eq_nil fun frame hmem => ?_
        rw [← List.mem_singleton.mp hmem] at he
        exact hc (Option.some.inj he).symm
      refine (h.client c').frame rfl (fun src => ?_) (fun _ => hnone) (fun _ _ hr => hr) fun o _ =>
        ?_
      · rw [hnone, List.append_nil]
      · rw [relayed_concat, hrel, Option.toList_none, List.append_nil]

theorem Relay.effect (h : Relay x log) (hinv : x.routes.Inv) {libc : Libc} {x' : Shared}
    {evs : List Event} (heff : Effect libc x log x' evs)
    (hfound : ∀ c nm r, (monitor log c).found = some (nm, r) → r ≠ invalidClientId → Named log r nm)
    (hlt : allocated (log ++ evs) < 2 ^ 32) : Relay x' (log ++ evs) := by
  cases heff with
  | pass hr _ hevs =>
    have hmon : ∀ c, monitor (log ++ evs) c = monitor log c := monitor_append_of_none hevs
    -- an event outside any call, of a login or of the wire
    have hplain : ∀ e ∈ evs, (∀ o, e.relayed o = none) ∧ e.allocates = false ∧
        ∀ c frame, e ≠ .received c frame := by
      intro e he
      have hclient := hevs e he
      cases e with
      | login n c name => exact ⟨fun _ => rfl, rfl, fun _ _ h => by cases h⟩
      | wrote c bytes => exact ⟨fun _ => rfl, rfl, fun _ _ h => by cases h⟩
      | _ => cases hclient
    have hnone : ∀ c src, sentParts c src evs = [] := fun c src =>
      sentParts_eq_nil fun frame hmem => (hplain _ hmem).2.2 c frame rfl
    refine h.quiet hr (fun e he => (hplain e he).1) (fun e he => (hplain e he).2.1)
      (fun c => by rw [hmon]) fun c => ?_
    rw [hmon]
    refine (h.client c).frame rfl (fun src => ?_) (fun _ => hnone c) (fun _ _ hr => hr) fun o _ =>
      ?_
    · rw [hnone, List.append_nil]
    · exact relayed_append_of_none fun e he => (hplain e he).1 o
  | received u frame hm hl _ =>
    have hnew : monitor (log ++ [.received u.id frame]) u.id = { call := .frame frame } := by
      rw [monitor_concat, Monitor.event, if_pos rfl]
    refine h.call rfl (fun _ => rfl) rfl rfl (by rw [hnew, hm]) ?_
    rw [hnew]
    refine (h.client u.id).frame (by rw [hm]) (fun src => ?_) (fun hd => ?_) (fun _ _ hr => hr)
      fun o _ => ?_
    · rw [hm]
      rw [sentParts_received]
      rfl
    · rw [hm] at hd
      exact absurd rfl hd
    · rw [relayed_concat]
      exact List.append_nil _
  | abort u hr _ hm =>
    have hnew : monitor (log ++ [.abort u.id]) u.id = { call := .abort } := by
      rw [monitor_concat, Monitor.event, if_pos rfl]
    refine h.call hr (fun _ => rfl) rfl rfl (by rw [hnew, hm]) ?_
    rw [hnew]
    refine (h.client u.id).frame (by rw [hm]) (fun src => ?_) (fun _ _ => rfl) (fun _ _ hr => hr)
      fun o _ => ?_
    · rw [hm]
      rfl
    · rw [relayed_concat]
      exact List.append_nil _
  | returned u hm =>
    have hnew : monitor (log ++ [.returned u.id]) u.id = {} := by
      rw [monitor_concat, Monitor.event, if_pos rfl]
    refine h.call rfl (fun _ => rfl) rfl rfl ?_ ?_
    · rw [hnew]
      rcases hm with ⟨hd, -⟩ | hd
      · rw [hd]
      · rw [hd]
        rfl
    · rw [hnew]
      refine (h.client u.id).returned hm (fun _ => rfl) fun o => ?_
      rw [relayed_concat]
      exact List.append_nil _
  | did u o hl ha => exact h.did hinv hl ha (hfound u.id) libc hlt

end Step

theorem Server.relay_of_reach {ok : Server → Label → Prop} {s : Server} (hs : server.Reach ok s)
    (hlt : allocated s.log < 2 ^ 32) : Relay s.shared s.log := by
  revert hlt
  refine Server.effect_invariant (P := fun x log => allocated log < 2 ^ 32 → Relay x log)
    (fun _ => relay_init) ?_ hs
  intro s l x' evs hreach _ heff hold hlt
  refine (hold (lt_of_le_of_lt (allocated_le_append _ _) hlt)).effect
    (Server.wf_of_reach hreach).routes heff ?_ hlt
  intro c nm r hf hr
  obtain ⟨before, after, hlog, -⟩ := monitor_found hf
  have hnamed := (Server.found_named hreach hlog hr).append (.did c (.findClientId nm) r :: after)
  rwa [← hlog] at hnamed

/-- Before the 32-bit counter wraps, in every interleaving and whatever fails: all file
frames queued under an outbound id go to one client, and in queue order they are a prefix
of BEGIN CHUNK* (END | ERROR) whose chunks fit the announced size, exactly so at END. -/
theorem relay_stream_shape {s : Server} (hs : server.Reachable s) (hlt : allocated s.log < 2 ^ 32)
    (o : UInt32) : ∃ r, (∀ f ∈ relayed s.log o, f.1 = r) ∧
      RelayShape o ((relayed s.log o).map Prod.snd) := by
  obtain ⟨st, hst, -⟩ := (Server.relay_of_reach hs hlt).stream o
  exact hst.shape

/-- A file of three bytes from one client to another. -/
theorem relay_stream_shape_three : ∃ s, server.Reachable s ∧ allocated s.log < 2 ^ 32 ∧
    (relayed s.log 1).map Prod.fst = [2, 2, 2] ∧ ∃ r, (∀ f ∈ relayed s.log 1, f.1 = r) ∧
      RelayShape 1 ((relayed s.log 1).map Prod.snd) := by
  have hrun : (server.run server.init (loginLabels 0 (ascii "ann") ++ loginLabels 1 (ascii "bob") ++
      frameLabels 0 ([0] ++ writeU32 9 ++ writeU64 3 ++ writeU16 3 ++ writeU16 1 ++ ascii "bobf") ++
      stepLabels 0 [none, none, some 1, none] ++
      frameLabels 0 ([1] ++ writeU32 9 ++ [7, 8, 9]) ++
      stepLabels 0 [none, some 2, none] ++
      frameLabels 0 ([2] ++ writeU32 9) ++ stepLabels 0 [none, some 3, none])).map
        (fun s => (allocated s.log, (relayed s.log 1).map Prod.fst)) = some (1, [2, 2, 2]) := by
    decide +kernel
  obtain ⟨s, hs, hlog⟩ := Option.map_eq_some_iff.mp hrun
  have hreach := Transition.System.Reachable.run .init hs
  obtain ⟨hcount, hframes⟩ := Prod.mk.inj hlog
  have hlt : allocated s.log < 2 ^ 32 := by
    rw [hcount]
    decide
  exact ⟨s, hreach, hlt, hframes, relay_stream_shape hreach hlt 1⟩

end CipherChat
