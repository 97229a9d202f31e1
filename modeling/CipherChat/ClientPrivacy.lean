import CipherChat.ClientStream
import CipherChat.CommandGrammar

/-!
# Typed private messages

`handle_input` decides by a prefix scan whether a line is a private message, before
`parse_command` cuts it into tokens.  Both see the same verb, so a private message
never takes the path of a plain text, and all that leaves at once is a request for
the recipient's key.
-/

namespace CipherChat

open Resumption Prog

/-- The prefix scan of `handle_input` finds the first token. -/
theorem startsWithVerb_iff {text verb : Bytes} (hverb : ∀ b ∈ verb, isSpace b = false) :
    startsWithVerb text verb = true ↔ token text = verb := by
  have hsplit : token text ++ text.dropWhile (!isSpace ·) = text := List.takeWhile_append_dropWhile
  constructor
  · intro h
    simp only [startsWithVerb, Bool.and_eq_true, beq_iff_eq] at h
    obtain ⟨htake, hend⟩ := h
    have htext : text = verb ++ text.drop verb.length := by
      conv_lhs => rw [← List.take_append_drop verb.length text, htake]
    rw [htext, token, List.takeWhile_append_of_pos (by simpa using hverb)]
    cases hrest : text.drop verb.length with
    | nil => simp
    | cons b rest =>
      rw [hrest] at hend
      have hb : isSpace b = true := by simpa using hend
      rw [List.takeWhile_cons_of_neg (by simp [hb]), List.append_nil]
  · rintro rfl
    have htake := congrArg (List.take (token text).length) hsplit
    have hdrop := congrArg (List.drop (token text).length) hsplit
    rw [List.take_left] at htake
    rw [List.drop_left] at hdrop
    simp only [startsWithVerb, ← htake, ← hdrop, beq_self_eq_true, Bool.true_and]
    cases hhead : (text.dropWhile (!isSpace ·)).head? with
    | none => rfl
    | some b => exact isSpace_of_head?_dropWhile hhead

theorem handleInput_msg (s : ClientState) {line : Bytes}
    (hverb : token (skipWhitespace line) = ascii "/msg") :
    handleInput s line = (handlePrivateMessage s line >>= fun r => pure (r.2.afterSend r.1)) := by
  have hmsg : ∀ b ∈ ascii "/msg", isSpace b = false := forall_ascii_ofList rfl
  have hfile : ∀ b ∈ ascii "/file", isSpace b = false := forall_ascii_ofList rfl
  have hline : line ≠ [] := by
    rintro rfl
    cases hverb
  have hnotFile : ¬startsWithVerb line (ascii "/file") = true := by
    rw [startsWithVerb_iff hfile]
    intro htoken
    -- the line starts with a slash, so there is no white space to skip
    cases line with
    | nil => exact hline rfl
    | cons b rest =>
      have hb : isSpace b = false := by
        by_contra hspace
        rw [token, List.takeWhile_cons_of_neg (by simpa using hspace)] at htoken
        cases htoken
      rw [skipWhitespace, List.dropWhile_cons_of_neg (by simp [hb]), htoken] at hverb
      cases hverb
  have hscan : startsWithVerb (line.dropWhile isSpace) (ascii "/msg") = true :=
    (startsWithVerb_iff hmsg).mpr hverb
  rw [handleInput, if_neg hline, if_neg hnotFile, if_pos hscan]

/-- The frames of the `send_frame` calls in a trace. -/
def tracedFrames (xs : List ((o : ClientOp) × o.Resp)) : List (FrameType × Bytes) :=
  xs.filterMap fun x =>
    match x.1 with
    | .note (.sendFrame type payload) => some (type, payload)
    | _ => none

def handedBytes (xs : List ((o : ClientOp) × o.Resp)) : Bytes :=
  (xs.filterMap fun x =>
    match x.1 with
    | .sendAll bytes => some bytes
    | _ => none).flatten

/-- At most one frame, a request for the key of `name`. -/
def asks (name : Bytes) : Discipline clientSig Bool where
  allow asked o := ∀ type payload, o = .note (.sendFrame type payload) →
    asked = false ∧ type = .requestPk ∧ payload = name
  next asked o _ :=
    match o with
    | .note (.sendFrame _ _) => true
    | _ => asked

theorem asks_sendFrame {name : Bytes} :
    (asks name).follows false (sendFrame .requestPk name) fun _ _ => True := by
  have hother : ∀ asked bytes, (asks name).allow asked (.sendAll bytes) := by
    intro asked bytes type payload h
    cases h
  refine Discipline.follows_call ?_ fun _ => ?_
  · intro type payload h
    cases h
    exact ⟨rfl, rfl, rfl⟩
  refine Discipline.follows_ite (Discipline.follows_pure trivial) ?_
  refine Discipline.follows_call (hother _ _) fun header => ?_
  cases header with
  | error e => exact Discipline.follows_pure trivial
  | ok u =>
    refine Discipline.follows_call (hother _ _) fun byte => ?_
    cases byte with
    | error e => exact Discipline.follows_pure trivial
    | ok u =>
      refine Discipline.follows_ite ?_ (Discipline.follows_pure trivial)
      exact Discipline.follows_last (hother _ _) fun _ => trivial

theorem asks_requestKey (s : ClientState) (type : PendingPackageType) (username data : Bytes) :
    (asks username).follows false (requestKey s type username data) fun _ _ => True := by
  unfold requestKey
  refine Discipline.follows_ite (Discipline.follows_pure trivial) ?_
  refine Discipline.follows_call (fun _ _ h => by cases h) fun address => ?_
  dsimp only
  split
  · exact Discipline.follows_pure trivial
  refine Discipline.follows_call (fun _ _ h => by cases h) fun copied => ?_
  refine Discipline.follows_ite ?_ (Discipline.follows_pure trivial)
  rw [Discipline.follows_bind]
  refine Discipline.follows_mono ?_ asks_sendFrame
  intro asked result _
  cases result with
  | error e => exact Discipline.follows_pure trivial
  | ok u =>
    refine Discipline.follows_call (fun _ _ h => by cases h) fun _ => ?_
    exact Discipline.follows_pure trivial

theorem asks_handlePrivateMessage (s : ClientState) (line : Bytes) :
    (asks (token (nextToken (skipWhitespace line)))).follows false (handlePrivateMessage s line)
      fun _ _ => True := by
  unfold handlePrivateMessage
  split
  · next username message hparse =>
    refine Discipline.follows_ite (Discipline.follows_pure trivial) ?_
    rw [← (parseCommand_tokens hparse).2]
    exact asks_requestKey s .message username message
  · exact Discipline.follows_pure trivial

theorem asks_handleFileCommand (s : ClientState) (line : Bytes) :
    ∃ name, (asks name).follows false (handleFileCommand s line) fun _ _ => True := by
  unfold handleFileCommand
  split
  · next username filepath hparse =>
    exact ⟨username, Discipline.follows_ite (Discipline.follows_pure trivial)
      (asks_requestKey s .file username filepath)⟩
  · exact ⟨[], Discipline.follows_pure trivial⟩

theorem asks_tracedFrames {name : Bytes} {asked : Bool} {xs : List ((o : ClientOp) × o.Resp)}
    (h : (asks name).Accepts asked xs) :
    tracedFrames xs = [] ∨ (asked = false ∧ tracedFrames xs = [(.requestPk, name)]) := by
  induction xs generalizing asked with
  | nil => exact .inl rfl
  | cons x xs ih =>
    obtain ⟨hallow, hrest⟩ := h
    have hxs := ih hrest
    obtain ⟨o, r⟩ := x
    by_cases hframe : ∃ type payload, o = .note (.sendFrame type payload)
    · obtain ⟨type, payload, rfl⟩ := hframe
      obtain ⟨hasked, rfl, rfl⟩ := hallow type payload rfl
      rcases hxs with hxs | ⟨hfalse, -⟩
      · refine .inr ⟨hasked, ?_⟩
        change (FrameType.requestPk, payload) :: tracedFrames xs = _
        rw [hxs]
      · cases hfalse
    · have hskip : tracedFrames (⟨o, r⟩ :: xs) = tracedFrames xs ∧
        (asks name).next asked o r = asked := by
        cases o with
        | note n =>
          cases n with
          | sendFrame type payload => exact absurd ⟨type, payload, rfl⟩ hframe
          | _ => exact ⟨rfl, rfl⟩
        | _ => exact ⟨rfl, rfl⟩
      rw [hskip.2] at hxs
      rw [hskip.1]
      exact hxs

/-- What is still to be handed over of the current frame. -/
def Tx.rest : Tx → Bytes
  | .even => []
  | .within rest => rest
  | .torn _ => []

theorem tx_torn {e : Errno} {xs : List ((o : ClientOp) × o.Resp)} (h : tx.Accepts (.torn e) xs) :
    handedBytes xs = [] := by
  induction xs with
  | nil => rfl
  | cons x xs ih =>
    obtain ⟨hallow, hrest⟩ := h
    obtain ⟨o, r⟩ := x
    cases o with
    | sendAll bytes => exact (hallow : False).elim
    | _ => exact ih hrest

theorem tx_handedBytes {t : Tx} {xs : List ((o : ClientOp) × o.Resp)} (h : tx.Accepts t xs) :
    handedBytes xs <+:
      t.rest ++ ((tracedFrames xs).map fun f => encodeFrame f.1 f.2).flatten := by
  induction xs generalizing t with
  | nil => exact List.nil_prefix
  | cons x xs ih =>
    have hall := h
    obtain ⟨hallow, hrest⟩ := h
    obtain ⟨o, r⟩ := x
    cases t with
    | torn e =>
      rw [tx_torn hall]
      exact List.nil_prefix
    | within rest =>
      cases o with
      | sendAll bytes =>
        obtain ⟨after, rfl⟩ : bytes <+: rest := hallow
        change bytes ++ handedBytes xs <+: (bytes ++ after) ++ _
        rw [List.append_assoc, List.prefix_append_right_inj]
        cases r with
        | error e =>
          rw [tx_torn hrest]
          exact List.nil_prefix
        | ok u =>
          have hxs := ih hrest
          rw [tx_next_ok] at hxs
          split at hxs
          · next hafter =>
            rw [hafter]
            exact hxs
          · exact hxs
      | _ => exact (hallow : False).elim
    | even =>
      have hxs := ih hrest
      cases o with
      | sendAll bytes => exact (hallow : False).elim
      | note n =>
        cases n with
        | sendFrame type payload => exact hxs
        | _ => exact hxs
      | _ => exact hxs

theorem handedBytes_op {α β : Type} {o : ClientOp} {k : o.Resp → ClientProg α}
    {k' : o.Resp → ClientProg β}
    (h : ∀ r answers, handedBytes ((k r).trace answers) = handedBytes ((k' r).trace answers))
    (answers : List ((o : ClientOp) → o.Resp)) :
    handedBytes (trace (S := clientSig) answers (.op o k)) =
      handedBytes (trace (S := clientSig) answers (.op o k')) := by
  cases answers with
  | nil => rfl
  | cons answer answers =>
    have hrest := h (answer o) answers
    cases o with
    | sendAll bytes => exact congrArg (bytes ++ ·) hrest
    | _ => exact hrest

theorem handedBytes_bind {α β γ : Type} {f : α → ClientProg β} {g : α → ClientProg γ}
    (h : ∀ a answers, handedBytes ((f a).trace answers) = handedBytes ((g a).trace answers))
    (p : ClientProg α) (answers : List ((o : ClientOp) → o.Resp)) :
    handedBytes ((p >>= f).trace answers) = handedBytes ((p >>= g).trace answers) := by
  induction p generalizing answers with
  | ret a => exact h a answers
  | op o k ih => exact handedBytes_op ih answers

theorem handedBytes_requestKey (s : ClientState) (type : PendingPackageType)
    (username data data' : Bytes) (f : Except Errno Unit × ClientState → ClientState)
    (answers : List ((o : ClientOp) → o.Resp)) :
    handedBytes ((requestKey s type username data >>= fun r => pure (f r)).trace answers) =
      handedBytes ((requestKey s type username data' >>= fun r => pure (f r)).trace answers) := by
  unfold requestKey
  split
  · rfl
  rw [bind_assoc, bind_assoc]
  refine handedBytes_bind ?_ _ answers
  intro address answers
  dsimp only
  split
  · rfl
  rw [bind_assoc, bind_assoc]
  refine handedBytes_bind ?_ _ answers
  intro copied answers
  split
  · rw [bind_assoc, bind_assoc]
    refine handedBytes_bind ?_ _ answers
    intro result answers
    cases result with
    | error e => rfl
    | ok u =>
      cases answers with
      | nil => rfl
      | cons answer answers =>
        cases answers <;> rfl
  · rfl

/-- A line whose verb is `/msg` sends nothing, or one request for the key of its recipient
token.  Two such messages to one recipient hand the same bytes to the connection,
whatever the environment answers. -/
theorem private_text_never_in_clear (s : ClientState) :
    (∀ line, 0 ∉ line → line ≠ [] → token (skipWhitespace line) = ascii "/msg" → ∀ answers,
      let xs := (handleInput s line).trace answers
      (tracedFrames xs = [] ∨
        tracedFrames xs = [(.requestPk, token (nextToken (skipWhitespace line)))]) ∧
      handedBytes xs <+: ((tracedFrames xs).map fun f => encodeFrame f.1 f.2).flatten) ∧
    ∀ line line' username message message',
      parseCommand line = .privateMessage username message →
      parseCommand line' = .privateMessage username message' →
      message.length ≤ chatMaxMessageSize → message'.length ≤ chatMaxMessageSize → ∀ answers,
        handedBytes ((handleInput s line).trace answers) =
          handedBytes ((handleInput s line').trace answers) := by
  refine ⟨?_, ?_⟩
  · intro line _ _ hverb answers xs
    constructor
    · have hasks : (asks (token (nextToken (skipWhitespace line)))).Accepts false xs := by
        refine Discipline.follows_trace (Q := fun _ _ => True) answers ?_
        rw [handleInput_msg s hverb, Discipline.follows_bind]
        refine Discipline.follows_mono ?_ (asks_handlePrivateMessage s line)
        intro asked result _
        exact Discipline.follows_pure trivial
      rcases asks_tracedFrames hasks with hnone | ⟨-, hone⟩
      · exact .inl hnone
      · exact .inr hone
    · exact tx_handedBytes (Discipline.follows_trace answers (tx_handleInput line))
  · intro line line' username message message' hparse hparse' hlength hlength' answers
    rw [handleInput_msg s (parseCommand_tokens hparse).1,
      handleInput_msg s (parseCommand_tokens hparse').1]
    simp only [handlePrivateMessage, hparse, hparse', if_neg (not_lt.mpr hlength),
      if_neg (not_lt.mpr hlength')]
    exact handedBytes_requestKey s .message username message message' _ answers

def idleClient : ClientState := { files := .start Receiver.emptyStore }

theorem private_text_never_in_clear_bob :
    (∀ answers, tracedFrames ((handleInput idleClient (ascii "/msg bob hi")).trace answers) = [] ∨
      tracedFrames ((handleInput idleClient (ascii "/msg bob hi")).trace answers) =
        [(.requestPk, ascii "bob")]) ∧
    ∀ answers, handedBytes ((handleInput idleClient (ascii "/msg bob hi")).trace answers) =
      handedBytes ((handleInput idleClient (ascii "/msg bob bye")).trace answers) := by
  have hzero : 0 ∉ ascii "/msg bob hi" := by decide +kernel
  have hverb : token (skipWhitespace (ascii "/msg bob hi")) = ascii "/msg" := by decide +kernel
  have hname : token (nextToken (skipWhitespace (ascii "/msg bob hi"))) = ascii "bob" := by
    decide +kernel
  have hhi : parseCommand (ascii "/msg bob hi") = .privateMessage (ascii "bob") (ascii "hi") := by
    decide +kernel
  have hbye : parseCommand (ascii "/msg bob bye") =
      .privateMessage (ascii "bob") (ascii "bye") := by
    decide +kernel
  have hlength : (ascii "hi").length ≤ chatMaxMessageSize := by decide +kernel
  have hlength' : (ascii "bye").length ≤ chatMaxMessageSize := by decide +kernel
  obtain ⟨hasks, halike⟩ := private_text_never_in_clear idleClient
  refine ⟨fun answers => ?_, halike _ _ _ _ _ hhi hbye hlength hlength'⟩
  rw [← hname]
  exact (hasks _ hzero (fun hnil => by rw [hnil] at hverb; cases hverb) hverb answers).1

end CipherChat
