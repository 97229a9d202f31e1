import CipherChat.Departure
import CipherChat.Draining
import CipherChat.Reports

/-!
# A failed transfer is reported once

A transfer runs from the BEGIN that `file_routes_add` accepted.  Its failure texts are
those of the sender's own calls that name it, and the one that the recipient's sweep
owes for its route.  The sweep and the BEGIN path both report a route that the sweep
finds between `file_routes_add` and the forwarding of the BEGIN; in every run without
such a sweep there is at most one text.
-/

namespace CipherChat

open FileRoutes Resumption

/-- The event queues a failure text about the transfer `src` of `c`: a text of `c`'s own
call that names it, or the sweep of the recipient, which puts one text on its list for each
live route that it ends. -/
def Event.charges (t : FileRoutes) (c : ClientId) (src : UInt32) : Event → Bool
  | .did d (.queueFrame r .text text) _ =>
    d == c && r == c && (transferText src []).isPrefixOf text
  | .did d (.routesAbortClient _ _) _ => d != c && (t.live (c, src)).any (·.targetId == d)
  | _ => false

/-- The failure texts about the transfer `src` of `c`, from a given route table on. -/
def reports (c : ClientId) (src : UInt32) : FileRoutes → List Event → ℕ
  | _, [] => 0
  | t, e :: rest => (if e.charges t c src then 1 else 0) + reports c src (e.routes t) rest

/-- The recipient of the transfer is not swept while the sender's handler is between
`file_routes_add` and the end of the forwarding of the BEGIN. -/
def NoSweepInBegin (c : ClientId) (src : UInt32) (s : Server) (l : Label) : Prop :=
  ∀ d capacity r, (s.threads l.1).nextOp = some (.routesAbortClient d capacity) →
    s.shared.routes.live (c, src) = some r → r.targetId = d → ¬(monitor s.log c).Beginning src

theorem transferText_id {src src' : UInt32} {message : Bytes}
    (h : transferText src [] <+: transferText src' message) : src = src' := by
  obtain ⟨rest, h⟩ := h
  have hcolon : ascii ": " = [58, 32] := ascii_ofList _
  rw [transferText_eq, transferText_eq, hcolon, List.append_assoc, List.append_cancel_left_eq,
    List.append_assoc] at h
  exact UInt32.toNat_inj.mp (repr_delimited_inj (.inr (by decide)) h)

theorem head?_of_transferText {src : UInt32} {text : Bytes} (h : transferText src [] <+: text) :
    text.head? = some 84 := by
  obtain ⟨rest, rfl⟩ := h
  rw [transferText_eq, List.append_assoc]
  exact head?_append_of_head? (head?_ascii_ofList _ _)

/-- The texts about the transfer `src` that a call owes, and the one that it may come to owe. -/
def Notices.load (src : UInt32) (m : Notices) : ℕ :=
  m.owed.count (.own src) + if m.ending.any (·.1 == src) then 1 else 0

/-- The operation makes its call owe a text about the client's own transfer `src`, or the END. -/
def Op.owes (src : UInt32) : (o : Op) → o.Resp → Bool
  | .routesAdd _ src' _ _ _, answer =>
    src' == src && (answer.result == .duplicate || answer.result == .discard)
  | .routesQuarantine _ src' _, _ => src' == src
  | .routesAcceptChunk _ src' _, answer =>
    src' == src && (answer.result == .missing || answer.result == .overrun)
  | .routesMarkForwardFailed _ src' _, converted => src' == src && converted
  | .routesFinish _ src' validate, answer =>
    src' == src && (answer.result == .missing ||
      validate && (answer.result == .incomplete || answer.result == .ready))
  | _, _ => false

theorem Notices.load_owe {m : Notices} {src src' : UInt32} :
    (m.owe [.own src']).load src = m.load src + if src' = src then 1 else 0 := by
  have hcount : [Notice.own src'].count (.own src) = if src' = src then 1 else 0 := by
    simp only [List.count_singleton, beq_iff_eq, Notice.own.injEq]
  rw [Notices.load, Notices.load, Notices.owe]
  dsimp only
  rw [List.count_append, hcount, Nat.add_right_comm]

theorem Notices.load_next {m : Notices} {c : ClientId} {src : UInt32} {o : Op} (ha : m.allow c o)
    (r : o.Resp) (t : FileRoutes) (hsweep : ∀ d capacity, o ≠ .routesAbortClient d capacity) :
    (m.next o r).load src + (if (Event.did c o r).charges t c src then 1 else 0) ≤
      m.load src + if o.owes src r then 1 else 0 := by
  -- an operation that charges nothing, and owes at most what it is said to owe
  have hfree : ∀ {m' : Notices}, m' = m → (Event.did c o r).charges t c src = false →
      m'.load src + (if (Event.did c o r).charges t c src then 1 else 0) ≤
        m.load src + if o.owes src r then 1 else 0 := by
    rintro m' rfl hno
    rw [hno]
    simp
  have howe : ∀ {m' : Notices} {src' : UInt32}, m' = m.owe [.own src'] →
      (Event.did c o r).charges t c src = false → (src' = src → o.owes src r = true) →
      m'.load src + (if (Event.did c o r).charges t c src then 1 else 0) ≤
        m.load src + if o.owes src r then 1 else 0 := by
    rintro m' src' rfl hno hyes
    rw [hno, Notices.load_owe]
    by_cases hsrc : src' = src
    · simp [hyes hsrc, hsrc]
    · simp [hsrc]
  cases o with
  | queueFrame q type payload =>
    cases type with
    | text =>
      have hno : payload.head? ≠ some 84 →
          (Event.did c (.queueFrame q .text payload) r).charges t c src = false := by
        intro hhead
        rw [← Bool.not_eq_true]
        intro hcharge
        simp only [Event.charges, Bool.and_eq_true, List.isPrefixOf_iff_prefix] at hcharge
        exact hhead (head?_of_transferText hcharge.2)
      cases hkind : textKind payload with
      | transfer =>
        -- a text about `src'` pays what was owed for it
        simp only [Notices.allow, hkind] at ha
        obtain ⟨src', rest, message, ho, rfl, rfl, -⟩ := ha
        have hnext : m.next (.queueFrame q .text (transferText src' message)) r =
            { m with owed := rest } := by
          rw [Notices.next, if_neg (by rw [hkind]; decide), ho]
          rfl
        have hcharge : (Event.did q (.queueFrame q .text (transferText src' message)) r).charges t q
            src = true → src' = src := by
          intro hcharge
          simp only [Event.charges, Bool.and_eq_true, List.isPrefixOf_iff_prefix] at hcharge
          exact (transferText_id hcharge.2).symm
        have hload : m.load src = Notices.load src { m with owed := rest } +
            if src' = src then 1 else 0 := by
          rw [Notices.load, Notices.load, ho, List.count_cons]
          simp only [beq_iff_eq, Notice.own.injEq]
          rw [Nat.add_right_comm]
        rw [hnext, hload]
        by_cases hsrc : src' = src
        · rw [if_pos hsrc]
          split <;> omega
        · rw [if_neg fun h => hsrc (hcharge h)]
          omega
      | departed =>
        -- the text of a departed recipient names no transfer
        have htext : payload = departedText := by
          unfold textKind at hkind
          split_ifs at hkind
          assumption
        simp only [Notices.allow, hkind] at ha
        obtain ⟨rest, ho⟩ := ha
        have hload : (m.next (.queueFrame q .text payload) r).load src = m.load src := by
          rw [Notices.next, if_neg (by rw [hkind]; decide), Notices.load, Notices.load, ho]
          rfl
        rw [hload, hno (by rw [htext, head?_departedText]; decide)]
        simp
      | other =>
        refine hfree (by rw [Notices.next, if_pos hkind]) (hno fun hhead => ?_)
        rw [textKind, if_pos hhead] at hkind
        cases hkind
    | fileEnd =>
      obtain ⟨src', endpoint, hend, -⟩ := ha
      have hcharge : (Event.did c (.queueFrame q .fileEnd payload) r).charges t c src = false := rfl
      rw [hcharge]
      have hload : m.load src = m.owed.count (.own src) + if src' = src then 1 else 0 := by
        simp [Notices.load, hend]
      rw [hload]
      -- queued, the END is paid; refused, it becomes a text owed
      cases r with
      | ok _ =>
        simp only [Notices.next, Notices.load, Option.any_none, Bool.false_eq_true, if_false]
        omega
      | error e =>
        simp only [Notices.next, Notices.load, hend, Option.toList_some, List.map_cons,
          List.map_nil,
          List.count_append, List.count_singleton, beq_iff_eq, Notice.own.injEq, Option.any_none,
          Bool.false_eq_true, if_false]
        omega
    | _ => exact hfree rfl rfl
  | routesAdd s src' tgt size discard =>
    rw [Notices.next]
    split
    · next h =>
      refine howe rfl rfl fun hsrc => ?_
      rcases h with h | h <;> simp [Op.owes, hsrc, h]
    · exact hfree rfl rfl
  | routesQuarantine s src' keep => exact howe rfl rfl fun hsrc => by simp [Op.owes, hsrc]
  | routesAcceptChunk s src' len =>
    rw [Notices.next]
    split
    · next h =>
      refine howe rfl rfl fun hsrc => ?_
      rcases h with h | h <;> simp [Op.owes, hsrc, h]
    · exact hfree rfl rfl
  | routesMarkForwardFailed s src' out =>
    rw [Notices.next]
    split
    · next h => exact howe rfl rfl fun hsrc => by simpa [Op.owes, hsrc] using h
    · exact hfree rfl rfl
  | routesFinish s src' validate =>
    rw [Notices.next]
    split
    · next h => exact howe rfl rfl fun hsrc => by simp [Op.owes, hsrc, h]
    · next h =>
      split
      · next hv => exact howe rfl rfl fun hsrc => by simp [Op.owes, hsrc, h, hv]
      · exact hfree rfl rfl
    · next h =>
      split
      · next hv =>
        -- a finished route owes its END, and no text yet
        have hend : m.ending = none := ha
        have howes : (Op.routesFinish s src' validate).owes src r = (src' == src) := by
          simp [Op.owes, h, hv]
        have hload : Notices.load src { m with ending := some (src', r.endpoint) } =
            m.load src + if src' = src then 1 else 0 := by
          simp [Notices.load, hend]
        have hcharge : (Event.did c (.routesFinish s src' validate) r).charges t c
          src = false := rfl
        rw [hcharge, hload, howes]
        simp
      · exact hfree rfl rfl
    · exact hfree rfl rfl
  | routesAbortClient d capacity => exact absurd rfl (hsweep d capacity)
  | _ => exact hfree rfl rfl

def FileRoutes.liveCount (t : FileRoutes) (k : Key) : ℕ := if (t.live k).isSome then 1 else 0

section

variable {t t' : FileRoutes} {k : Key}

theorem liveCount_of_live_eq (h : t'.live k = t.live k) : t'.liveCount k = t.liveCount k := by
  rw [liveCount, liveCount, h]

theorem liveCount_of_some {r : FileRoute} (h : t.live k = some r) : t.liveCount k = 1 := by
  rw [liveCount, h]
  rfl

theorem liveCount_of_none (h : t.live k = none) : t.liveCount k = 0 := by
  rw [liveCount, h]
  rfl

theorem liveCount_le_one : t.liveCount k ≤ 1 := by
  rw [liveCount]
  split <;> omega

theorem pays_of_ended {b : Bool} {r : FileRoute} (h : t.live k = some r) (h' : t'.live k = none) :
    (if b then 1 else 0) + t'.liveCount k ≤ t.liveCount k := by
  rw [liveCount_of_some h, liveCount_of_none h']
  split <;> omega

end

theorem Op.key_of_owes {c : ClientId} {o : Op} {r : o.Resp} {src : UInt32}
    (ha : ∀ k, o.key = some k → k.1 = c) (h : o.owes src r = true) : o.key = some (c, src) := by
  have hkey : ∀ {s : ClientId} {src' : UInt32}, o.key = some (s, src') → src' = src →
      o.key = some (c, src) := by
    rintro s src' hk rfl
    rw [hk, ← ha (s, src') hk]
  cases o with
  | routesAdd s src' tgt size discard =>
    simp only [owes, Bool.and_eq_true, beq_iff_eq] at h
    exact hkey rfl h.1
  | routesQuarantine s src' keep =>
    simp only [owes, beq_iff_eq] at h
    exact hkey rfl h
  | routesAcceptChunk s src' len =>
    simp only [owes, Bool.and_eq_true, beq_iff_eq] at h
    exact hkey rfl h.1
  | routesMarkForwardFailed s src' out =>
    simp only [owes, Bool.and_eq_true, beq_iff_eq] at h
    exact hkey rfl h.1
  | routesFinish s src' validate =>
    simp only [owes, Bool.and_eq_true, beq_iff_eq] at h
    exact hkey rfl h.1
  | _ => cases h

theorem Monitor.nextDuty_ne_idle {m : Monitor} (h : m.duty ≠ .idle) (o : Op) (r : o.Resp) :
    m.nextDuty o r ≠ .idle := by
  cases o with
  | queueFrame q type payload =>
    simp only [nextDuty]
    split
    · split
      · cases r <;> simp [afterForward]
      · exact h
    · split
      · cases r <;> simp [afterForward]
      · exact h
    · split
      · simp
      · exact h
    · split
      · simp
      · exact h
    · exact h
  | routesAdd s src tgt size discard =>
    simp only [nextDuty]
    split
    · split <;> simp
    · simp [owe]
    · simp
  | routesQuarantine s src keep =>
    simp only [nextDuty]
    split
    · simp
    · split <;> simp [owe]
  | routesAcceptChunk s src len =>
    simp only [nextDuty]
    split
    · split <;> simp
    · simp [owe]
    · simp
  | routesFinish s src validate =>
    simp only [nextDuty]
    split
    · split <;> simp [owe]
    · simp [owe]
    · simp
  | routesMarkForwardFailed s src out => simp [nextDuty]
  | routesAbortClient d capacity => simp [nextDuty]
  | _ => exact h

/-- Client `c` has sent the CHUNKs, and the END or the ERROR, in `frames` of a transfer since
its BEGIN was accepted, and `n` failure texts about it were queued. -/
structure Reporting (c : ClientId) (src : UInt32) (log : List Event) (frames : List Bytes)
    (n : ℕ) : Prop where
  /-- The texts that were queued, that are owed, and that the route can still bring. -/
  once : n + (notices.state log c).load src + (routesAt log).liveCount (c, src) ≤ 1
  beginning : (monitor log c).Beginning src → (routesAt log).live (c, src) ≠ none
  kept : .abort c ∉ log → AllChunks frames → (routesAt log).lookup (c, src) ≠ none
  /-- The END or the ERROR finds the route or its tombstone. -/
  closing : ∀ f, (monitor log c).call = .frame f →
    (decodeControl f .fileEnd = .ok src ∨ decodeControl f .fileError = .ok src) →
    (keys.state log c).finding = none → (routesAt log).lookup (c, src) ≠ none
  /-- The frame in hand is the last one, or still the BEGIN. -/
  hand : ∀ f, (monitor log c).call = .frame f → Concerns src f →
    (∃ fs, frames = fs ++ [f]) ∨
      f.head? = some FrameType.fileBegin.toByte ∧ (monitor log c).duty ≠ .idle

namespace Reporting

variable {c : ClientId} {src : UInt32} {log : List Event} {frames : List Bytes} {n : ℕ}
theorem acceptChunk_pays {t : FileRoutes} (hinv : t.Inv) (hkept : t.lookup (c, src) ≠ none)
    (len : UInt64) :
    (if (Op.routesAcceptChunk c src len).owes src (t.acceptChunk c src len).2 then 1 else 0) +
      (t.acceptChunk c src len).1.liveCount (c, src) ≤ t.liveCount (c, src) ∧
      (t.acceptChunk c src len).1.lookup (c, src) ≠ none := by
  have hchunked := acceptChunk_chunked hinv c src len
  generalize (t.acceptChunk c src len).1 = t' at hchunked ⊢
  generalize (t.acceptChunk c src len).2 = answer at hchunked ⊢
  cases hchunked with
  | missing hk _ _ => exact absurd hk hkept
  | discard _ _ => exact ⟨by simp [Op.owes], hkept⟩
  | overrun hk hl _ =>
    refine ⟨pays_of_ended hk (by rw [live_tombstoned hl, Function.update_self]), ?_⟩
    rw [hl, Function.update_self]
    exact Option.some_ne_none _
  | ready hk _ _ _ hl _ =>
    refine ⟨?_, ?_⟩
    · rw [liveCount_of_some hk]
      simpa [Op.owes] using liveCount_le_one
    · rw [hl, Function.update_self]
      exact Option.some_ne_none _

theorem markForwardFailed_pays {t : FileRoutes} (hinv : t.Inv) (out : UInt32)
    (hkept : t.lookup (c, src) ≠ none) :
    (if (Op.routesMarkForwardFailed c src out).owes src (t.markForwardFailed c src out).2
      then 1 else 0) + (t.markForwardFailed c src out).1.liveCount (c, src) ≤
        t.liveCount (c, src) ∧ (t.markForwardFailed c src out).1.lookup (c, src) ≠ none := by
  have hmarked := markForwardFailed_marked hinv c src out
  generalize (t.markForwardFailed c src out).1 = t' at hmarked ⊢
  generalize (t.markForwardFailed c src out).2 = converted at hmarked ⊢
  cases hmarked with
  | converted hk _ hl _ =>
    refine ⟨pays_of_ended hk (by rw [live_tombstoned hl, Function.update_self]), ?_⟩
    rw [hl, Function.update_self]
    exact Option.some_ne_none _
  | kept _ => exact ⟨by simp [Op.owes], hkept⟩

theorem finish_pays {t : FileRoutes} (hinv : t.Inv) (hkept : t.lookup (c, src) ≠ none)
    (validate : Bool) :
    (if (Op.routesFinish c src validate).owes src (t.finish c src validate).2 then 1 else 0) +
      (t.finish c src validate).1.liveCount (c, src) ≤ t.liveCount (c, src) := by
  have hlive : (t.finish c src validate).1.live (c, src) = none := by
    rw [live, finish_lookup hinv, Option.filter_none]
  have hfinished := finish_finished hinv c src validate
  generalize (t.finish c src validate).1 = t' at hlive hfinished ⊢
  generalize (t.finish c src validate).2 = answer at hfinished ⊢
  cases hfinished with
  | missing hk => exact absurd hk hkept
  | discard _ _ _ _ =>
    rw [liveCount_of_none hlive]
    simp [Op.owes]
  | finished hk _ _ => exact pays_of_ended hk hlive

theorem quarantine_pays {t : FileRoutes} (hinv : t.Inv) (hlive : t.live (c, src) ≠ none) :
    (if (Op.routesQuarantine c src true).owes src (t.quarantine c src true).2 then 1 else 0) +
      (t.quarantine c src true).1.liveCount (c, src) ≤ t.liveCount (c, src) ∧
      (t.quarantine c src true).1.lookup (c, src) ≠ none := by
  obtain ⟨r, hr⟩ := Option.ne_none_iff_exists'.mp hlive
  refine ⟨pays_of_ended hr (quarantine_live hinv true), quarantine_keep hinv (.inr ?_)⟩
  rw [(live_eq_some.mp hr).1]
  exact Option.some_ne_none _

theorem own_key (h : Reporting c src log frames n) (hwell : WellFormed src frames)
    (hleft : (monitor log c).InFrame → .abort c ∉ log) {x : Shared} (hx : x.routes = routesAt log)
    (hinv : (routesAt log).Inv) {libc : Libc} {o : Op} {r : o.Resp} {name : Bytes}
    (hr : r = (perform libc x o).1) (hm : (monitor log c).allow c name o)
    (hk : (keys.state log c).allow c o) (hkey : o.key = some (c, src)) :
    ((if o.owes src r then 1 else 0) + ((routesAt log).after o).liveCount (c, src) ≤
      (routesAt log).liveCount (c, src)) ∧
    (AllChunks frames → ((routesAt log).after o).lookup (c, src) ≠ none) ∧
    ∀ tgt size discard, o ≠ .routesAdd c src tgt size discard := by
  obtain ⟨-, f, hc, hcon⟩ := Keyed.concerns hk hkey
  have hc' := hc
  rw [keys_state_call] at hc'
  have hnot := hleft ⟨f, hc'⟩
  rcases h.hand f hc' hcon with ⟨fs, hframes⟩ | ⟨hhead, hduty⟩
  -- a later frame: each kind has one operation of the table, on this key
  · have hcont : Continues f := by
      rw [hframes] at hwell
      exact hwell.continues
    cases o with
    | routesAdd s src' tgt size discard =>
      obtain ⟨-, -, f', b, hf', hb, -⟩ := hk
      cases hc.symm.trans hf'
      exact absurd hcont (not_continues_begin (decodeBegin_some hb).1)
    | routesQuarantine s src' keep =>
      obtain ⟨-, f', hf', -, hno, -⟩ := hk
      cases hc.symm.trans hf'
      exact absurd hcont hno
    | routesAcceptChunk s src' len =>
      cases hkey
      obtain ⟨-, -, f', chunk, hf', hchunk, -⟩ := hk
      cases hc.symm.trans hf'
      have hall : AllChunks frames := by
        rw [hframes] at hwell ⊢
        exact hwell.allChunks hchunk
      have hanswer : r = ((routesAt log).acceptChunk c src len).2 := by
        rw [hr, ← hx]
        simp only [perform, Shared.onRoutes]
      obtain ⟨hpays, hlookup⟩ := acceptChunk_pays hinv (h.kept hnot hall) len
      rw [hanswer, FileRoutes.after]
      exact ⟨hpays, fun _ => hlookup, fun _ _ _ heq => by cases heq⟩
    | routesMarkForwardFailed s src' out =>
      cases hkey
      obtain ⟨-, -, f', chunk, hf', hchunk, -⟩ := hk
      cases hc.symm.trans hf'
      have hall : AllChunks frames := by
        rw [hframes] at hwell ⊢
        exact hwell.allChunks hchunk
      have hanswer : r = ((routesAt log).markForwardFailed c src out).2 := by
        rw [hr, ← hx]
        simp only [perform, Shared.onRoutes]
      obtain ⟨hpays, hlookup⟩ := markForwardFailed_pays hinv out (h.kept hnot hall)
      rw [hanswer, FileRoutes.after]
      exact ⟨hpays, fun _ => hlookup, fun _ _ _ heq => by cases heq⟩
    | routesFinish s src' validate =>
      cases hkey
      obtain ⟨-, hnone, f', hf', hcontrol⟩ := hk
      cases hc.symm.trans hf'
      have hanswer : r = ((routesAt log).finish c src validate).2 := by
        rw [hr, ← hx]
        simp only [perform, Shared.onRoutes]
      rw [hanswer, FileRoutes.after]
      refine ⟨finish_pays hinv (h.closing f hc' hcontrol hnone) validate, fun hall => ?_,
        fun _ _ _ heq => by cases heq⟩
      obtain ⟨chunk, hchunk⟩ := hall f (by rw [hframes]; simp)
      exact absurd hcontrol (chunk_not_control hchunk)
    | _ => cases hkey
  -- the BEGIN itself can only quarantine the route that it has added
  · cases o with
    | routesAdd s src' tgt size discard => exact absurd hm.2.1 hduty
    | routesAcceptChunk s src' len => exact absurd hm.2.1 hduty
    | routesFinish s src' validate => exact absurd hm.2.1 hduty
    | routesMarkForwardFailed s src' out =>
      obtain ⟨-, -, f', chunk, hf', hchunk, -⟩ := hk
      cases hc.symm.trans hf'
      exact absurd (.inl ⟨chunk, hchunk⟩) (not_continues_begin hhead)
    | routesQuarantine s src' keep =>
      cases hkey
      rcases hm.2 with ⟨hfailed, rfl⟩ | ⟨hidle, -⟩
      · have hanswer : r = ((routesAt log).quarantine c src true).2 := by
          rw [hr, ← hx]
          simp only [perform, Shared.onRoutes]
        obtain ⟨hpays, hlookup⟩ := quarantine_pays hinv (h.beginning (.inr hfailed))
        rw [hanswer, FileRoutes.after]
        exact ⟨hpays, fun _ => hlookup, fun _ _ _ heq => by cases heq⟩
      · exact absurd hidle hduty
    | _ => cases hkey

theorem key_of_beginning {m : Monitor} {name : Bytes} {o : Op} {k : Key} (hb : m.Beginning src)
    (ha : m.allow c name o) (hk : o.key = some k) :
    ∃ keep, o = .routesQuarantine c src keep := by
  have hidle := fun hd : m.duty = .idle => m.not_beginning_of_idle hd src hb
  cases o with
  | routesAdd s src' tgt size discard => exact absurd ha.2.1 hidle
  | routesAcceptChunk s src' len => exact absurd ha.2.1 hidle
  | routesFinish s src' validate => exact absurd ha.2.1 hidle
  | routesMarkForwardFailed s src' out =>
    rcases hb with ⟨_, _, hd⟩ | hd <;> cases hd.symm.trans ha.2
  | routesQuarantine s src' keep =>
    obtain ⟨rfl, ⟨hd, -⟩ | ⟨hd, -⟩⟩ := ha
    · have habout := hb.about
      rw [hd] at habout
      cases habout
      exact ⟨keep, rfl⟩
    · exact absurd hd hidle
  | _ => cases hk

theorem own (h : Reporting c src log frames n) (hwell : WellFormed src frames)
    (hleft : (monitor log c).InFrame → .abort c ∉ log) {x : Shared} (hx : x.routes = routesAt log)
    (hinv : (routesAt log).Inv) {libc : Libc} {o : Op} {r : o.Resp} {name : Bytes}
    (hr : r = (perform libc x o).1) (hm : (monitor log c).allow c name o)
    (hk : (keys.state log c).allow c o) (hn : (notices.state log c).allow c o)
    (hsweep : ∀ d capacity, o ≠ .routesAbortClient d capacity) :
    Reporting c src (log ++ [.did c o r]) frames
      (n + if (Event.did c o r).charges (routesAt log) c src then 1 else 0) := by
  have hroutes : routesAt (log ++ [.did c o r]) = (routesAt log).after o := routesAt_concat _ _
  have hsame : o.key ≠ some (c, src) →
      ((routesAt log).after o).lookup (c, src) = (routesAt log).lookup (c, src) := fun hkey =>
    after_lookup_of_ne hinv hkey hsweep
  have hkeyed : ∀ k, o.key = some k → k.1 = c := fun k hkey => (Keyed.concerns hk hkey).1
  have hpays : (if o.owes src r then 1 else 0) + ((routesAt log).after o).liveCount (c, src) ≤
      (routesAt log).liveCount (c, src) := by
    by_cases hkey : o.key = some (c, src)
    · exact (h.own_key hwell hleft hx hinv hr hm hk hkey).1
    · rw [if_neg fun howes => hkey (Op.key_of_owes hkeyed howes), Nat.zero_add]
      refine (liveCount_of_live_eq ?_).le
      rw [live, live, hsame hkey]
  have hload : ((notices.state log c).next o r).load src +
      (if (Event.did c o r).charges (routesAt log) c src then 1 else 0) ≤
        (notices.state log c).load src + if o.owes src r then 1 else 0 :=
    Notices.load_next hn r (routesAt log) hsweep
  refine ⟨?_, fun hb => ?_, fun hab hall => ?_, fun f hc hcontrol hf => ?_, fun f hc hcon => ?_⟩
  -- what the operation charges it takes from what is owed or from the live route
  · have honce := h.once
    rw [notices_did_self, hroutes]
    omega
  · rw [monitor_did_self] at hb
    rw [hroutes]
    rcases hb.next hm with ⟨hb, -, hquarantine⟩ | ⟨tgt, size, discard, a, he, -⟩
    · have hkey : o.key ≠ some (c, src) := by
        intro hkey
        obtain ⟨keep, rfl⟩ := key_of_beginning hb hm hkey
        exact hquarantine keep r rfl
      rw [live, hsame hkey]
      exact h.beginning hb
    · obtain ⟨-, rfl, -⟩ := Event.did.inj he
      exact absurd rfl ((h.own_key hwell hleft hx hinv hr hm hk rfl).2.2 tgt size discard)
  · rw [hroutes]
    by_cases hkey : o.key = some (c, src)
    · exact (h.own_key hwell hleft hx hinv hr hm hk hkey).2.1 hall
    · rw [hsame hkey]
      exact h.kept (fun hmem => hab (List.mem_append_left _ hmem)) hall
  -- an operation on the key would have made a finding
  · rw [monitor_did_self] at hc
    rw [Watch.state_did_self] at hf
    have hkey : o.key ≠ some (c, src) := by
      intro hkey
      cases o with
      | routesAdd s src' tgt size discard => cases hf
      | routesQuarantine s src' keep => cases hf
      | routesAcceptChunk s src' len => cases hf
      | routesFinish s src' validate => cases hf
      | routesMarkForwardFailed s src' out => cases hk.2.1.symm.trans hf
      | _ => cases hkey
    have hnone : (keys.state log c).finding = none := by
      cases o with
      | routesAdd s src' tgt size discard => cases hf
      | routesQuarantine s src' keep => cases hf
      | routesAcceptChunk s src' len => cases hf
      | routesFinish s src' validate => cases hf
      | _ => exact hf
    rw [hroutes, hsame hkey]
    exact h.closing f hc hcontrol hnone
  · rw [monitor_did_self] at hc ⊢
    exact (h.hand f hc hcon).imp_right fun hbegin => ⟨hbegin.1,
      Monitor.nextDuty_ne_idle hbegin.2 o r⟩

theorem sweep (h : Reporting c src log frames n) (hinv : (routesAt log).Inv)
    (hc0 : c ≠ invalidClientId) {d : ClientId} (hd : d ≠ c) (hd0 : d ≠ invalidClientId)
    {capacity : ℕ} {r : (Op.routesAbortClient d capacity).Resp}
    (hbegin : ∀ route, (routesAt log).live (c, src) = some route → route.targetId = d →
      ¬(monitor log c).Beginning src) :
    Reporting c src (log ++ [.did d (.routesAbortClient d capacity) r]) frames
      (n + if (Event.did d (.routesAbortClient d capacity) r).charges (routesAt log) c src
        then 1 else 0) := by
  have hroutes : routesAt (log ++ [.did d (.routesAbortClient d capacity) r]) =
      ((routesAt log).abortClient d capacity).1 := by
    rw [routesAt_concat, Event.routes, FileRoutes.after]
  have hmonitor : monitor (log ++ [.did d (.routesAbortClient d capacity) r]) c = monitor log c :=
    monitor_did_of_ne hd
  have hlookup : (routesAt log).lookup (c, src) ≠ none →
      (routesAt (log ++ [.did d (.routesAbortClient d capacity) r])).lookup (c, src) ≠ none := by
    intro hne
    obtain ⟨route, hroute⟩ := Option.ne_none_iff_exists'.mp hne
    rw [hroutes]
    rcases abortClient_lookup_other hinv capacity hd.symm hc0 hroute with hsame | hsame
    · rw [hsame]
      exact Option.some_ne_none _
    · rw [hsame]
      exact Option.some_ne_none _
  refine ⟨?_, fun hb => ?_, fun hab hall => ?_, fun f hc hcontrol hf => ?_, fun f hc hcon => ?_⟩
  · have honce := h.once
    rw [Watch.state_did_of_ne hd, hroutes]
    -- the sweep of a recipient charges the sender just when it ends the route
    cases hlive : (routesAt log).live (c, src) with
    | none =>
      have hlive' : ((routesAt log).abortClient d capacity).1.live (c, src) = none := by
        rcases abortClient_live_other hinv capacity (k := (c, src)) hd.symm with hsame | ⟨hnone, -⟩
        · rw [hsame, hlive]
        · exact hnone
      have hcharge : (Event.did d (.routesAbortClient d capacity) r).charges (routesAt log) c src =
          false := by
        simp [Event.charges, hlive]
      rw [hcharge, liveCount_of_none hlive']
      simp only [Bool.false_eq_true, if_false]
      omega
    | some route =>
      rw [liveCount_of_some hlive] at honce
      by_cases htgt : route.targetId = d
      · have hlive' : ((routesAt log).abortClient d capacity).1.live (c, src) = none := by
          rw [Option.eq_none_iff_forall_not_mem]
          intro route' hroute'
          obtain ⟨hold, -, hne⟩ := (abortClient_live hinv hd0 capacity).mp hroute'
          cases hlive.symm.trans hold
          exact hne htgt
        rw [liveCount_of_none hlive']
        split <;> omega
      · have hcharge : (Event.did d (.routesAbortClient d capacity) r).charges (routesAt log) c
            src = false := by
          simp [Event.charges, hlive, htgt]
        have hcount : ((routesAt log).abortClient d capacity).1.liveCount (c, src) ≤ 1 :=
          liveCount_le_one
        rw [hcharge]
        simp only [Bool.false_eq_true, if_false]
        omega
  · rw [hmonitor] at hb
    rw [hroutes]
    rcases abortClient_live_other hinv capacity (k := (c, src)) hd.symm with
      hsame | ⟨-, route, hroute, htgt⟩
    · rw [hsame]
      exact h.beginning hb
    · exact absurd hb (hbegin route hroute htgt)
  · exact hlookup (h.kept (fun hmem => hab (List.mem_append_left _ hmem)) hall)
  · rw [hmonitor] at hc
    rw [Watch.state_did_of_ne hd] at hf
    exact hlookup (h.closing f hc hcontrol hf)
  · rw [hmonitor] at hc ⊢
    exact h.hand f hc hcon

theorem of_same (h : Reporting c src log frames n) {e : Event} (he : e.client ≠ some c)
    (hlookup : (routesAt (log ++ [e])).lookup (c, src) = (routesAt log).lookup (c, src)) :
    Reporting c src (log ++ [e]) frames n := by
  have hmonitor : monitor (log ++ [e]) c = monitor log c := by
    rw [monitor_concat, Monitor.event_of_client he]
  have hlive : (routesAt (log ++ [e])).live (c, src) = (routesAt log).live (c, src) := by
    rw [live, live, hlookup]
  refine ⟨?_, fun hb => ?_, fun hab hall => ?_, fun f hc hcontrol hf => ?_, fun f hc hcon => ?_⟩
  · rw [Watch.state_of_client he, liveCount_of_live_eq hlive]
    exact h.once
  · rw [hmonitor] at hb
    rw [hlive]
    exact h.beginning hb
  · rw [hlookup]
    exact h.kept (fun hmem => hab (List.mem_append_left _ hmem)) hall
  · rw [hmonitor] at hc
    rw [Watch.state_of_client he] at hf
    rw [hlookup]
    exact h.closing f hc hcontrol hf
  · rw [hmonitor] at hc ⊢
    exact h.hand f hc hcon

theorem fresh (h : Reporting c src log frames n) {e : Event} {call : Call} {frames' : List Bytes}
    (hmonitor : monitor (log ++ [e]) c = { call })
    (hnotices : notices.state (log ++ [e]) c = { call })
    (hroutes : routesAt (log ++ [e]) = routesAt log)
    (hkept : AllChunks frames' → AllChunks frames)
    (hleft : .abort c ∈ log → ∀ f, call ≠ .frame f)
    (hchunks : ∀ f, call = .frame f → Concerns src f → AllChunks frames)
    (hhand : ∀ f, call = .frame f → Concerns src f → ∃ fs, frames' = fs ++ [f]) :
    Reporting c src (log ++ [e]) frames' n := by
  have hnot : ∀ f, call = .frame f → .abort c ∉ log := fun f hf hmem => hleft hmem f hf
  refine ⟨?_, fun hb => ?_, fun hab hall => ?_, fun f hc hcontrol _ => ?_, fun f hc hcon => ?_⟩
  · have honce := h.once
    have hload : Notices.load src { call } = 0 := rfl
    rw [hnotices, hload, hroutes]
    omega
  · rw [hmonitor] at hb
    cases hb.about
  · rw [hroutes]
    exact h.kept (fun hmem => hab (List.mem_append_left _ hmem)) (hkept hall)
  · rw [hmonitor] at hc
    rw [hroutes]
    exact h.kept (hnot f hc) (hchunks f hc (concerns_of_control hcontrol))
  · rw [hmonitor] at hc
    exact .inl (hhand f hc hcon)

theorem ended (h : Reporting c src log frames n) {e : Event} (call : Call)
    (hmonitor : monitor (log ++ [e]) c = { call })
    (hnotices : notices.state (log ++ [e]) c = { call }) (hcall : ∀ f, call ≠ .frame f)
    (hroutes : routesAt (log ++ [e]) = routesAt log) :
    Reporting c src (log ++ [e]) frames n :=
  h.fresh hmonitor hnotices hroutes id (fun _ => hcall) (fun f hf _ => absurd hf (hcall f))
    fun f hf _ => absurd hf (hcall f)

end Reporting

theorem Server.nextOp_of_did {s s' : Server} {l : Label} {d : ClientId} {o : Op} {r : o.Resp}
    (hstep : server.step s l = some s') (hlog : s'.log = s.log ++ [.did d o r]) :
    (s.threads l.1).nextOp = some o ∧ ∃ u, (s.threads l.1).inCall = some u ∧ u.id = d := by
  obtain ⟨n, env⟩ := l
  obtain ⟨x', t', evs, hturn, rfl⟩ := Server.step_turn hstep
  have hevs : evs = [.did d o r] := List.append_cancel_left hlog
  dsimp only
  generalize s.threads n = t at hturn ⊢
  cases hturn with
  | op u w o' k =>
    obtain ⟨rfl, rfl, -⟩ := Event.did.inj (List.singleton_inj.mp hevs)
    exact ⟨rfl, u, rfl, rfl⟩
  | abortOp u o' k =>
    obtain ⟨rfl, rfl, -⟩ := Event.did.inj (List.singleton_inj.mp hevs)
    exact ⟨rfl, u, rfl, rfl⟩
  | _ => cases hevs

theorem Reporting.start {log : List Event} {c : ClientId} {name : Bytes} {src : UInt32}
    {tgt : ClientId} {size : UInt64} {discard : Bool} (hinv : (routesAt log).Inv) {x : Shared}
    (hx : x.routes = routesAt log) {libc : Libc} {answer : AddAnswer}
    (hresp : answer = (perform libc x (.routesAdd c src tgt size discard)).1)
    (hm : (monitor log c).allow c name (.routesAdd c src tgt size discard))
    (hn : (notices.state log c).allow c (.routesAdd c src tgt size discard))
    (hready : answer.result = .ready) :
    Reporting c src (log ++ [.did c (.routesAdd c src tgt size discard) answer]) [] 0 := by
  have hlookup : ∃ route, (routesAt (log ++ [.did c (.routesAdd c src tgt size discard)
      answer])).lookup (c, src) = some route ∧ route.discard = false := by
    have hadd := add_added hinv c src tgt size discard
    rw [routesAt_concat, Event.routes, FileRoutes.after]
    rw [← hx, ← show answer = (x.routes.add c src tgt size discard).2 from hresp.trans (by
      simp only [perform, Shared.onRoutes]), hx] at hadd
    generalize ((routesAt log).add c src tgt size discard).1 = t' at hadd
    cases hadd with
    | ready _ _ _ _ hl _ => exact ⟨_, by rw [hl, Function.update_self], rfl⟩
    | _ => cases hready
  obtain ⟨route, hroute, hdiscard⟩ := hlookup
  obtain ⟨-, -, f, b, hc, hb, -⟩ := id hm
  have hduty : (monitor (log ++ [.did c (.routesAdd c src tgt size discard) answer]) c).duty ≠
      .idle := by
    rw [monitor_did_self]
    simp only [Monitor.next, Monitor.nextDuty, hready, hc, hb]
    exact fun h => by cases h
  have hsome : (routesAt (log ++ [.did c (.routesAdd c src tgt size discard)
      answer])).lookup (c, src) ≠ none := by
    rw [hroute]
    exact Option.some_ne_none _
  refine ⟨?_, fun _ => ?_, fun _ _ => hsome, fun _ _ _ _ => hsome, fun f' hc' _ => .inr ⟨?_, hduty⟩⟩
  -- READY is answered while nothing is owed
  · have hload : (notices.state log c).load src = 0 := by
      rw [Notices.load, hn.1, hn.2]
      rfl
    rw [notices_did_self, next_add_free (by rw [hready]; decide) (by rw [hready]; decide), hload]
    have hcount := liveCount_le_one (t := routesAt (log ++ [.did c (.routesAdd c src tgt size
      discard) answer])) (k := (c, src))
    omega
  · rw [live_eq_some.mpr ⟨hroute, hdiscard⟩]
    exact Option.some_ne_none _
  · rw [monitor_did_self] at hc'
    cases hc.symm.trans hc'
    exact (decodeBegin_some hb).1

theorem Monitor.beginning_iff {m : Monitor} {src : UInt32} : m.Beginning src ↔
    (match m.duty with
      | .beginForward src' _ _ | .beginFailed src' => src' == src
      | _ => false) = true := by
  rw [Monitor.Beginning]
  split <;> simp_all

instance (m : Monitor) (src : UInt32) : Decidable (m.Beginning src) :=
  decidable_of_iff' _ Monitor.beginning_iff

theorem noSweepInBegin_iff {c : ClientId} {src : UInt32} {s : Server} {l : Label} :
    NoSweepInBegin c src s l ↔
      (match (s.threads l.1).nextOp with
        | some (.routesAbortClient d _) =>
          !((s.shared.routes.live (c, src)).any (·.targetId == d) &&
            decide ((monitor s.log c).Beginning src))
        | _ => true) = true := by
  constructor
  · intro h
    split
    · next d capacity hop =>
      rw [Bool.not_eq_true', ← Bool.not_eq_true, Bool.and_eq_true, not_and]
      intro hlive
      obtain ⟨r, hr, htgt⟩ := (Option.any_eq_true _ _).mp hlive
      rw [decide_eq_true_eq]
      exact h d capacity r hop hr (eq_of_beq htgt)
    · rfl
  · intro h d capacity r hop hr htgt hb
    rw [hop] at h
    simp [hr, htgt, hb] at h

instance (c : ClientId) (src : UInt32) (s : Server) (l : Label) :
    Decidable (NoSweepInBegin c src s l) :=
  decidable_of_iff' _ noSweepInBegin_iff

/-- `file_routes_add` has accepted the BEGIN of the transfer `src` of `c`. -/
def Event.accepts (c : ClientId) (src : UInt32) : Event → Bool
  | .did d (.routesAdd c' src' _ _ _) answer =>
    d == c && c' == c && src' == src && answer.result == .ready
  | _ => false

/-- `ann` sends a BEGIN to `bob`: the states before and after its route is added. -/
def acceptance : Option (Server × Server) := do
  let s₀ ← server.run server.init (addressed (loginLabels 0 (ascii "ann") ++
    loginLabels 1 (ascii "bob") ++
    frameLabels 0 ([0] ++ writeU32 9 ++ writeU64 3 ++ writeU16 3 ++ writeU16 1 ++ ascii "bobf") ++
    stepLabels 0 [none]))
  let s₁ ← server.step s₀ (0, {})
  pure (s₀, s₁)

theorem accepted {s₀ s₁ : Server} (h : acceptance = some (s₀, s₁)) :
    server.Reachable s₀ ∧ server.step s₀ (0, {}) = some s₁ ∧ ∃ tgt size discard answer,
      s₁.log = s₀.log ++ [.did 1 (.routesAdd 1 9 tgt size discard) answer] ∧
      answer.result = .ready := by
  have hcheck : acceptance.all (fun p => decide ((p.2.log.drop p.1.log.length).length = 1) &&
      (p.2.log.drop p.1.log.length).all (Event.accepts 1 9)) = true := by
    decide +kernel
  rw [h] at hcheck
  rw [acceptance, Option.bind_eq_bind, Option.bind_eq_some_iff] at h
  obtain ⟨s, hs, h⟩ := h
  rw [Option.bind_eq_some_iff] at h
  obtain ⟨s', hstep, h⟩ := h
  cases h
  have hreach : server.Reachable s₀ := .run .init hs
  obtain ⟨evs, hlog⟩ := Server.steps_log hreach (.tail .refl hstep)
  rw [Option.all_some, hlog, List.drop_left' rfl, Bool.and_eq_true, decide_eq_true_eq] at hcheck
  obtain ⟨hlength, hall⟩ := hcheck
  obtain ⟨e, rfl⟩ := List.length_eq_one_iff.mp hlength
  have he : e.accepts 1 9 = true := List.all_eq_true.mp hall e (List.mem_singleton.mpr rfl)
  refine ⟨hreach, hstep, ?_⟩
  cases e with
  | did d o answer =>
    cases o with
    | routesAdd c src tgt size discard =>
      simp only [Event.accepts, Bool.and_eq_true, beq_iff_eq] at he
      obtain ⟨⟨⟨rfl, rfl⟩, rfl⟩, hready⟩ := he
      exact ⟨tgt, size, discard, answer, hlog, hready⟩
    | _ => cases he
  | _ => cases he

end CipherChat
