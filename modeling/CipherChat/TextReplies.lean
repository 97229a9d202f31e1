import CipherChat.CommandGrammar
import CipherChat.Waiting

/-!
# Replies to text commands

A text that the server refuses is answered with an error text to its sender, and a message
of at most 65536 bytes is passed on whole.  The error for a command that is invalid or
unknown repeats the command in a buffer of 1024 bytes, and is dropped when it does not fit.
-/

namespace CipherChat

open Resumption Prog Transition

/-- The registry that an operation of a handler meets, and what the C library answers then. -/
structure Moment where
  libc : Libc
  shared : Shared

def Moment.answer (m : Moment) (o : Op) : o.Resp := (perform m.libc m.shared o).1

/-- The client is ready with room in its queue, and `malloc` and `eventfd_write` succeed. -/
def Moment.Serves (m : Moment) (clientId : ClientId) : Prop :=
  (∃ i, m.shared.clients.findReady clientId = some i ∧
    (m.shared.clients.clients i).outgoing.count < maxOutgoingFrames) ∧
  malloc m.shared.clients.heap m.libc.address ≠ none ∧ m.libc.eventfdWrite = none

def textsTo (clientId : ClientId) (xs : List ((o : Op) × o.Resp)) : List Bytes :=
  xs.filterMap fun x =>
    match x with
    | ⟨.queueFrame r .text text, .ok ()⟩ => if r = clientId then some text else none
    | _ => none

def ErrorText (text : Bytes) : Prop :=
  ascii "Invalid command format: " <+: text ∨ ascii "Unknown command: " <+: text ∨
    text = msgTooLong ∨ ∃ username, text = msgUserNotFound username

def privateText (sender message : Bytes) : Bytes :=
  ascii "Private message from " ++ sender ++ ascii ": " ++ message ++ ascii "\n"

def broadcastText (sender message : Bytes) : Bytes :=
  ascii "Broadcast from " ++ sender ++ ascii ": " ++ message ++ ascii "\n"

def Unreachable (username text : Bytes) : List Moment → Prop
  | m :: m' :: _ =>
    m.shared.clients.findClientId username = invalidClientId ∨
    ∃ e, m'.answer (.queueFrame (m.shared.clients.findClientId username) .text text) = .error e
  | _ => False

def Refused (sender payload : Bytes) (moments : List Moment) : Prop :=
  payload = [] ∨ 0 ∈ payload ∨
  match parseCommand payload with
  | .invalid | .unknown | .fileTransfer _ _ => True
  | .privateMessage username message => messageMaxSize < message.length ∨
    Unreachable username (privateText sender message) moments
  | .broadcastMessage message => messageMaxSize < message.length
  | _ => False

/-- A message of at most 65536 bytes goes whole to whoever is found under the name, a broadcast
to everybody who is collected. -/
def PassedOn (clientId : ClientId) (sender payload : Bytes) : Prop :=
  match parseCommand payload with
  | .privateMessage username message => message.length ≤ messageMaxSize →
    (privateText sender message).length ≤ frameMaxSize - 1 ∧
    ∃ k, handleClientFrame clientId sender (FrameType.text.toByte :: payload) =
      .op (.findClientId username) k ∧
      ∀ r ≠ invalidClientId, ∃ k', k r = .op (.queueFrame r .text (privateText sender message)) k'
  | .broadcastMessage message => message.length ≤ messageMaxSize →
    (broadcastText sender message).length ≤ frameMaxSize - 1 ∧
    ∃ k, handleClientFrame clientId sender (FrameType.text.toByte :: payload) =
      .op (.recipients clientId) k ∧
      ∀ ids, k ids = (sendTextToEach (broadcastText sender message) ids >>= fun _ => pure true)
  | _ => True

def TextAnswered (clientId : ClientId) (sender payload : Bytes) : Prop :=
  (∀ moments : List Moment, 3 ≤ moments.length → (∀ m ∈ moments, m.Serves clientId) →
    Refused sender payload moments → ∃ text, ErrorText text ∧
      textsTo clientId ((handleClientFrame clientId sender
        (FrameType.text.toByte :: payload)).trace (moments.map Moment.answer)) = [text]) ∧
  (payload ≠ [] → 0 ∉ payload → PassedOn clientId sender payload)

def EchoFits (payload : Bytes) : Prop :=
  payload = [] ∨ 0 ∈ payload ∨
  match parseCommand payload with
  | .invalid => 25 + payload.length < bufferSize
  | .unknown | .fileTransfer _ _ => 18 + payload.length < bufferSize
  | _ => True

section

variable {c : ClientId} {u : Bytes}

theorem trace_op {α : Type} {o : Op} {k : o.Resp → Handler α} (answer : (o : Op) → o.Resp)
    (answers : List ((o : Op) → o.Resp)) : trace (S := serverSig) (answer :: answers) (.op o k) =
      ⟨o, answer o⟩ :: trace (S := serverSig) answers (k (answer o)) := rfl

theorem Moment.Serves.queued {m : Moment} (h : m.Serves c) (hc : c ≠ invalidClientId) {text : Bytes}
    (hlen : text.length ≤ frameMaxSize - 1) : m.answer (.queueFrame c .text text) = .ok () := by
  obtain ⟨⟨i, hready, hroom⟩, hmalloc, hwrite⟩ := h
  obtain ⟨a, ha⟩ := Option.ne_none_iff_exists'.mp hmalloc
  have hcount : ¬maxOutgoingFrames ≤ ((m.shared.clients.signal i).clients i).outgoing.count := by
    unfold ClientManager.signal ClientManager.set
    dsimp only
    rw [Function.update_self]
    exact not_le.mpr hroom
  unfold Moment.answer perform Shared.onClients ClientManager.queueFrameToClientId
  dsimp only
  rw [if_neg hc, if_neg (by omega), ha, hready, hwrite]
  unfold ClientManager.link
  dsimp only
  rw [if_neg hcount]

theorem sendFormatted_fits {text : Bytes} (h0 : 0 < text.length) (h1 : text.length < bufferSize) :
    sendFormatted c text = .op (.queueFrame c .text text) fun _ => .ret () := by
  have hne : text ≠ [] := List.ne_nil_of_length_pos h0
  rw [sendFormatted, if_pos ⟨h0, h1⟩, sendTextToClientId, if_neg hne]
  rfl

theorem sendFormatted_dropped {text : Bytes} (h : ¬text.length < bufferSize) :
    sendFormatted c text = .ret () := by
  rw [sendFormatted, if_neg fun hfits => h hfits.2]
  rfl

theorem textsTo_queued (hc : c ≠ invalidClientId) {m : Moment} (h : m.Serves c) {text : Bytes}
    (hlen : text.length ≤ frameMaxSize - 1) (rest : List Moment) (b : Bool) :
    textsTo c (trace (S := serverSig) ((m :: rest).map Moment.answer)
      (.op (.queueFrame c .text text) fun _ => .ret b)) = [text] := by
  have hanswer := h.queued hc hlen
  have hrest : trace (S := serverSig) (rest.map Moment.answer) (Prog.ret b) = [] := by
    cases rest <;> rfl
  rw [List.map_cons, trace_op, hrest, hanswer]
  simp [textsTo]

theorem length_invalid (command : Bytes) :
    (ascii "Invalid command format: " ++ command ++ ascii "\n").length = 25 + command.length := by
  rw [List.length_append, List.length_append, length_ascii_ofList, length_ascii_ofList]
  simp only [List.length_cons, List.length_nil]
  omega

theorem length_unknown (command : Bytes) :
    (ascii "Unknown command: " ++ command ++ ascii "\n").length = 18 + command.length := by
  rw [List.length_append, List.length_append, length_ascii_ofList, length_ascii_ofList]
  simp only [List.length_cons, List.length_nil]
  omega

theorem length_userNotFound (username : Bytes) :
    (msgUserNotFound username).length = 16 + username.length := by
  rw [msgUserNotFound, List.length_append, List.length_append, length_ascii_ofList,
    length_ascii_ofList]
  simp only [List.length_cons, List.length_nil]
  omega

theorem one_text (hc : c ≠ invalidClientId) {text : Bytes} (h0 : 0 < text.length)
    (h1 : text.length < bufferSize) {moments : List Moment} (hne : moments ≠ [])
    (hall : ∀ m ∈ moments, m.Serves c) :
    textsTo c (trace (S := serverSig) (moments.map Moment.answer)
      (sendFormatted c text >>= fun _ => pure true)) = [text] := by
  have hbuffer := bufferSize_eq
  have hmax := frameMaxSize_eq
  cases moments with
  | nil => exact absurd rfl hne
  | cons m rest =>
    rw [sendFormatted_fits h0 h1]
    exact textsTo_queued hc (hall m List.mem_cons_self) (by omega) rest true

theorem no_text {text : Bytes} (h : ¬text.length < bufferSize)
    (answers : List ((o : Op) → o.Resp)) :
    textsTo c (trace (S := serverSig) answers (sendFormatted c text >>= fun _ =>
      pure true)) = [] := by
  rw [sendFormatted_dropped h]
  cases answers <;> rfl

theorem errorText_invalid (command : Bytes) :
    ErrorText (ascii "Invalid command format: " ++ command ++ ascii "\n") :=
  .inl ⟨command ++ ascii "\n", by rw [List.append_assoc]⟩

theorem errorText_unknown (command : Bytes) :
    ErrorText (ascii "Unknown command: " ++ command ++ ascii "\n") :=
  .inr (.inl ⟨command ++ ascii "\n", by rw [List.append_assoc]⟩)

theorem handleClientFrame_refused {payload : Bytes} (h : payload = [] ∨ 0 ∈ payload) :
    handleClientFrame c u (FrameType.text.toByte :: payload) =
      (sendInvalidCommand c (ascii "binary text frame") >>= fun _ => pure true) := by
  rw [handleClientFrame, List.head?_cons, Option.bind_some, FrameType.ofByte_toByte]
  dsimp only
  rw [List.drop_one, List.tail_cons, if_pos h]

theorem handleClientFrame_command {payload : Bytes} (h0 : payload ≠ []) (hzero : 0 ∉ payload) :
    handleClientFrame c u (FrameType.text.toByte :: payload) = handleCommand c u payload := by
  rw [handleClientFrame, List.head?_cons, Option.bind_some, FrameType.ofByte_toByte]
  dsimp only
  rw [List.drop_one, List.tail_cons, if_neg (not_or.mpr ⟨h0, hzero⟩)]

theorem sendTextToClientId_eq {text : Bytes} (h : text ≠ []) :
    sendTextToClientId c text = call (S := serverSig) (.queueFrame c .text text) := by
  rw [sendTextToClientId, if_neg h]
  rfl

theorem length_privateText (sender message : Bytes) :
    (privateText sender message).length = 24 + sender.length + message.length := by
  simp only [privateText, List.length_append]
  rw [length_ascii_ofList, length_ascii_ofList, length_ascii_ofList]
  simp only [List.length_cons, List.length_nil]
  omega

theorem length_broadcastText (sender message : Bytes) :
    (broadcastText sender message).length = 18 + sender.length + message.length := by
  simp only [broadcastText, List.length_append]
  rw [length_ascii_ofList, length_ascii_ofList, length_ascii_ofList]
  simp only [List.length_cons, List.length_nil]
  omega

def deliver (c r : ClientId) (username text : Bytes) : Handler Bool :=
  if r ≠ invalidClientId then do
    match ← call (S := serverSig) (.queueFrame r .text text) with
    | .ok () => pure true
    | .error _ => do
      sendFormatted c (msgUserNotFound username)
      pure true
  else do
    sendFormatted c (msgUserNotFound username)
    pure true

theorem handleCommand_privateMessage {payload username message : Bytes}
    (hparse : parseCommand payload = .privateMessage username message)
    (hlen : message.length ≤ messageMaxSize) (hu : u.length < usernameSize) :
    handleCommand c u payload = .op (.findClientId username) fun r =>
      deliver c r username (privateText u message) := by
  have c1 := usernameSize_eq
  have c2 := messageMaxSize_eq
  have c3 := frameMaxSize_eq
  have htext := length_privateText u message
  have hne : privateText u message ≠ [] := List.ne_nil_of_length_pos (by omega)
  unfold handleCommand
  rw [hparse]
  dsimp only
  rw [if_neg (not_lt.mpr hlen)]
  change (if (privateText u message).length < frameMaxSize then
    (sendMessageToClient username (privateText u message) c >>= fun _ => pure true)
    else pure true) = _
  rw [if_pos (by omega), sendMessageToClient, call_bind, op_bind]
  congr 1
  funext r
  unfold deliver
  by_cases hr : r ≠ invalidClientId
  · rw [if_pos hr, if_pos hr, sendTextToClientId_eq hne, call_bind, op_bind, call_bind]
    congr 1
    funext result
    cases result <;> rfl
  · rw [if_neg hr, if_neg hr]

theorem handleCommand_broadcastMessage {payload message : Bytes}
    (hparse : parseCommand payload = .broadcastMessage message)
    (hlen : message.length ≤ messageMaxSize) (hu : u.length < usernameSize) :
    handleCommand c u payload = .op (.recipients c) fun ids =>
      sendTextToEach (broadcastText u message) ids >>= fun _ => pure true := by
  have c1 := usernameSize_eq
  have c2 := messageMaxSize_eq
  have c3 := frameMaxSize_eq
  have htext := length_broadcastText u message
  have hne : broadcastText u message ≠ [] := List.ne_nil_of_length_pos (by omega)
  unfold handleCommand
  rw [hparse]
  dsimp only
  rw [if_neg (not_lt.mpr hlen)]
  change (if (broadcastText u message).length < frameMaxSize then
    (sendMessageToAllClients (broadcastText u message) c >>= fun _ => pure true)
    else pure true) = _
  rw [if_pos (by omega), sendMessageToAllClients, if_neg hne, call_bind, op_bind]

theorem length_msgTooLong : msgTooLong.length = 40 := by
  rw [msgTooLong, length_ascii_ofList]
  rfl

theorem handleCommand_tooLong {payload : Bytes}
    (h : (∃ username message, parseCommand payload = .privateMessage username message ∧
        messageMaxSize < message.length) ∨
      ∃ message, parseCommand payload = .broadcastMessage message ∧
        messageMaxSize < message.length) :
    handleCommand c u payload = (sendFormatted c msgTooLong >>= fun _ => pure true) := by
  have hlength := length_msgTooLong
  have hbuffer := bufferSize_eq
  have hne : msgTooLong ≠ [] := List.ne_nil_of_length_pos (by omega)
  rw [sendFormatted_fits (by omega) (by omega)]
  unfold handleCommand
  rcases h with ⟨username, message, hparse, hlong⟩ | ⟨message, hparse, hlong⟩
  · rw [hparse]
    dsimp only
    rw [if_pos hlong, sendTextToClientId_eq hne]
    rfl
  · rw [hparse]
    dsimp only
    rw [if_pos hlong, sendTextToClientId_eq hne]
    rfl

theorem errorText_tooLong : ErrorText msgTooLong := .inr (.inr (.inl rfl))

theorem one_text_tooLong (hc : c ≠ invalidClientId) {moments : List Moment} (hne : moments ≠ [])
    (hall : ∀ m ∈ moments, m.Serves c) :
    textsTo c (trace (S := serverSig) (moments.map Moment.answer)
      (sendFormatted c msgTooLong >>= fun _ => pure true)) = [msgTooLong] := by
  have hbuffer := bufferSize_eq
  exact one_text hc (by rw [length_msgTooLong]; omega) (by rw [length_msgTooLong]; omega) hne hall

theorem one_text_undelivered (hc : c ≠ invalidClientId) {username text : Bytes}
    (hname : username.length < usernameSize) {moments : List Moment} (h3 : 3 ≤ moments.length)
    (hall : ∀ m ∈ moments, m.Serves c) (h : Unreachable username text moments) :
    textsTo c (trace (S := serverSig) (moments.map Moment.answer)
      (.op (.findClientId username) fun r => deliver c r username text)) =
      [msgUserNotFound username] := by
  have hsize := usernameSize_eq
  have hbuffer := bufferSize_eq
  have hlength := length_userNotFound username
  obtain ⟨m, m', rest, rfl⟩ : ∃ m m' rest, moments = m :: m' :: rest := by
    cases moments with
    | nil => simp at h3
    | cons m rest =>
      cases rest with
      | nil => simp at h3
      | cons m' rest => exact ⟨m, m', rest, rfl⟩
  have hfound : m.answer (.findClientId username) = m.shared.clients.findClientId username := by
    rw [Moment.answer, perform]
  rw [List.map_cons, trace_op, hfound]
  have hskip : ∀ (r : ClientId) xs, textsTo c (⟨.findClientId username, r⟩ :: xs) = textsTo c xs :=
    fun _ _ => rfl
  rw [hskip]
  simp only [Unreachable] at h
  generalize m.shared.clients.findClientId username = r at h ⊢
  by_cases hr : r ≠ invalidClientId
  · obtain ⟨e, he⟩ := h.resolve_left hr
    have hfail : ∀ xs, textsTo c (⟨.queueFrame r .text text, .error e⟩ :: xs) = textsTo c xs :=
      fun _ => rfl
    have hrest : rest ≠ [] := by
      rintro rfl
      simp at h3
    unfold deliver
    rw [if_pos hr, List.map_cons, call_bind, trace_op, he, hfail]
    exact one_text hc (by omega) (by omega) hrest fun m hm =>
      hall m (List.mem_cons_of_mem _ (List.mem_cons_of_mem _ hm))
  · unfold deliver
    rw [if_neg hr]
    exact one_text hc (by omega) (by omega) (List.cons_ne_nil _ _) fun m hm =>
      hall m (List.mem_cons_of_mem _ hm)

theorem passedOn (hu : u.length < usernameSize) {payload : Bytes} (h0 : payload ≠ [])
    (hzero : 0 ∉ payload) : PassedOn c u payload := by
  have c1 := usernameSize_eq
  have c2 := messageMaxSize_eq
  have c3 := frameMaxSize_eq
  unfold PassedOn
  rw [handleClientFrame_command h0 hzero]
  cases hparse : parseCommand payload with
  | privateMessage username message =>
    intro hlen
    have htext := length_privateText u message
    refine ⟨by omega, _, handleCommand_privateMessage hparse hlen hu, fun r hr => ?_⟩
    unfold deliver
    rw [if_pos hr]
    exact ⟨_, rfl⟩
  | broadcastMessage message =>
    intro hlen
    have htext := length_broadcastText u message
    exact ⟨by omega, _, handleCommand_broadcastMessage hparse hlen hu, fun _ => rfl⟩
  | _ => trivial

theorem one_text_refused (hc : c ≠ invalidClientId) (hu : u.length < usernameSize) {payload : Bytes}
    (hfits : EchoFits payload) {moments : List Moment} (h3 : 3 ≤ moments.length)
    (hall : ∀ m ∈ moments, m.Serves c) (h : Refused u payload moments) :
    ∃ text, ErrorText text ∧ textsTo c ((handleClientFrame c u
      (FrameType.text.toByte :: payload)).trace (moments.map Moment.answer)) = [text] := by
  have hbuffer := bufferSize_eq
  have hne : moments ≠ [] := by
    rintro rfl
    simp at h3
  -- an empty text, or one with a zero byte, is refused before it is parsed
  by_cases hbinary : payload = [] ∨ 0 ∈ payload
  · have hlength := length_invalid (ascii "binary text frame")
    rw [length_ascii_ofList] at hlength
    simp only [List.length_cons, List.length_nil] at hlength
    rw [handleClientFrame_refused hbinary]
    exact ⟨_, errorText_invalid _, one_text hc (by omega) (by omega) hne hall⟩
  · obtain ⟨h0, hzero⟩ := not_or.mp hbinary
    have hfits := (hfits.resolve_left h0).resolve_left hzero
    have h := (h.resolve_left h0).resolve_left hzero
    rw [handleClientFrame_command h0 hzero]
    have hinvalid := length_invalid payload
    have hunknown := length_unknown payload
    cases hparse : parseCommand payload with
    | invalid =>
      rw [hparse] at hfits
      unfold handleCommand
      rw [hparse]
      exact ⟨_, errorText_invalid _, one_text hc (by omega) (by rw [hinvalid]; exact hfits) hne
        hall⟩
    | unknown =>
      rw [hparse] at hfits
      unfold handleCommand
      rw [hparse]
      exact ⟨_, errorText_unknown _, one_text hc (by omega) (by rw [hunknown]; exact hfits) hne
        hall⟩
    -- the server knows no /file
    | fileTransfer username filepath =>
      rw [hparse] at hfits
      unfold handleCommand
      rw [hparse]
      exact ⟨_, errorText_unknown _, one_text hc (by omega) (by rw [hunknown]; exact hfits) hne
        hall⟩
    | privateMessage username message =>
      rw [hparse] at h
      by_cases hlong : messageMaxSize < message.length
      · rw [handleCommand_tooLong (.inl ⟨username, message, hparse, hlong⟩)]
        exact ⟨_, errorText_tooLong, one_text_tooLong hc hne hall⟩
      -- nobody is found under the name, or the text cannot be queued
      · have hname := (parseCommand_privateMessage hparse).2.2.2.2.2
        rw [handleCommand_privateMessage hparse (not_lt.mp hlong) hu]
        exact ⟨_, .inr (.inr (.inr ⟨username, rfl⟩)),
          one_text_undelivered hc hname h3 hall (h.resolve_left hlong)⟩
    | broadcastMessage message =>
      rw [hparse] at h
      rw [handleCommand_tooLong (.inr ⟨message, hparse, h⟩)]
      exact ⟨_, errorText_tooLong, one_text_tooLong hc hne hall⟩
    | listUsers =>
      rw [hparse] at h
      exact h.elim
    | help =>
      rw [hparse] at h
      exact h.elim
    | quit =>
      rw [hparse] at h
      exact h.elim

theorem maxClients_pos : 0 < maxClients := by decide

def servingMoment (c : ClientId) : Moment where
  libc := { address := some 0 }
  shared :=
    { clients := ClientManager.init.set ⟨0, maxClients_pos⟩
        { active := true, ready := true, id := c }
      routes := .init }

theorem servingMoment_serves (c : ClientId) : (servingMoment c).Serves c := by
  have hready : (servingMoment c).shared.clients.findReady c = some ⟨0, maxClients_pos⟩ := by
    unfold ClientManager.findReady
    rw [Fin.find?_eq_some_iff]
    refine ⟨?_, fun j hj => absurd hj (Nat.not_lt_zero _)⟩
    unfold servingMoment ClientManager.set
    dsimp only
    rw [Function.update_self]
    simp
  refine ⟨⟨_, hready, ?_⟩, ?_, rfl⟩
  · unfold servingMoment ClientManager.set
    dsimp only
    rw [Function.update_self]
    exact show 0 < maxOutgoingFrames by decide
  · rw [show malloc (servingMoment c).shared.clients.heap (servingMoment c).libc.address = some 0
      from rfl]
    exact Option.some_ne_none 0

theorem no_text_refused {payload : Bytes} (hfits : ¬EchoFits payload) (moments : List Moment)
    (answers : List ((o : Op) → o.Resp)) : Refused u payload moments ∧
      textsTo c ((handleClientFrame c u (FrameType.text.toByte :: payload)).trace
        answers) = [] := by
  have hinvalid := length_invalid payload
  have hunknown := length_unknown payload
  rw [EchoFits, not_or, not_or] at hfits
  obtain ⟨h0, hzero, hlong⟩ := hfits
  rw [handleClientFrame_command h0 hzero]
  unfold handleCommand Refused
  cases hparse : parseCommand payload with
  | invalid =>
    rw [hparse] at hlong
    exact ⟨.inr (.inr trivial), no_text (by rw [hinvalid]; exact hlong) answers⟩
  | unknown =>
    rw [hparse] at hlong
    exact ⟨.inr (.inr trivial), no_text (by rw [hunknown]; exact hlong) answers⟩
  | fileTransfer username filepath =>
    rw [hparse] at hlong
    exact ⟨.inr (.inr trivial), no_text (by rw [hunknown]; exact hlong) answers⟩
  | _ =>
    rw [hparse] at hlong
    exact absurd trivial hlong

theorem echoFits_of_answered {payload : Bytes} (h : TextAnswered c u payload) :
    EchoFits payload := by
  by_contra hfits
  have hserves : ∀ m ∈ List.replicate 3 (servingMoment c), m.Serves c := by
    intro m hm
    rw [List.eq_of_mem_replicate hm]
    exact servingMoment_serves c
  obtain ⟨hrefused, hnone⟩ := no_text_refused (c := c) (u := u) hfits
    (List.replicate 3 (servingMoment c)) ((List.replicate 3 (servingMoment c)).map Moment.answer)
  obtain ⟨text, -, hone⟩ := h.1 _ (List.length_replicate).ge hserves hrefused
  rw [hnone] at hone
  cases hone

/-- Every refused text is answered exactly when the command fits into the error that repeats
it. -/
theorem text_answered_iff (hc : c ≠ invalidClientId) (hu : u.length < usernameSize)
    (payload : Bytes) : TextAnswered c u payload ↔ EchoFits payload := by
  refine ⟨echoFits_of_answered, fun hfits => ⟨fun moments h3 hall hrefused => ?_, ?_⟩⟩
  · exact one_text_refused hc hu hfits h3 hall hrefused
  · exact fun h0 hzero => passedOn hu h0 hzero

end

theorem text_answered_iff_ann : parseCommand (ascii "/msg bob") = .invalid ∧
    TextAnswered 1 (ascii "ann") (ascii "/msg bob") ∧ ∃ text, ErrorText text ∧
      textsTo 1 ((handleClientFrame 1 (ascii "ann")
        (FrameType.text.toByte :: ascii "/msg bob")).trace
        ((List.replicate 3 (servingMoment 1)).map Moment.answer)) = [text] := by
  have hparse : parseCommand (ascii "/msg bob") = .invalid := by decide +kernel
  have hfits : EchoFits (ascii "/msg bob") := by
    refine .inr (.inr ?_)
    rw [hparse]
    decide +kernel
  have hrefused : Refused (ascii "ann") (ascii "/msg bob")
      (List.replicate 3 (servingMoment 1)) := by
    refine .inr (.inr ?_)
    rw [hparse]
    trivial
  have hname : (ascii "ann").length < usernameSize := by
    rw [length_ascii_ofList]
    decide
  have hanswered := (text_answered_iff (c := 1) (by decide) hname _).mpr hfits
  refine ⟨hparse, hanswered, hanswered.1 _ List.length_replicate.ge (fun m hm => ?_) hrefused⟩
  rw [List.eq_of_mem_replicate hm]
  exact servingMoment_serves 1

theorem text_handled {payload : Bytes} (h : payload.length < frameMaxSize) :
    ∃ s w, server.Reachable s ∧ s.shared.clients.Idle ann ∧ s.threads 0 = .handling ann w
      (handleClientFrame ann.id ann.username (FrameType.text.toByte :: payload)) := by
  obtain ⟨s, w, hs, hwaits, -⟩ := ann_waits
  obtain ⟨s', w', hst, hshared, -, hthread, -⟩ := hwaits.handles (FrameType.text.toByte :: payload)
    (Nat.succ_pos _) (by rw [List.length_cons]; omega)
    (show isValidFrameType FrameType.text.toByte = true by decide)
  exact ⟨s', w', hs.steps hst, hshared ▸ hwaits.idle, hthread⟩

theorem not_echoFits_of_unknown {payload : Bytes} (h0 : payload ≠ []) (hzero : 0 ∉ payload)
    (hparse : parseCommand payload = .unknown) (hlong : bufferSize ≤ 18 + payload.length) :
    ¬EchoFits payload := by
  rw [EchoFits, hparse, not_or, not_or]
  exact ⟨h0, hzero, not_lt.mpr hlong⟩

def longText : Bytes := List.replicate 1100 120

theorem parseCommand_longText : parseCommand longText = .unknown := by
  decide +kernel

/-- A client sends an unknown command of 1100 bytes, and the server has nothing to say to it. -/
theorem long_text_unanswered : (∃ s w, server.Reachable s ∧ s.shared.clients.Idle ann ∧
      s.threads 0 = .handling ann w
        (handleClientFrame ann.id ann.username (FrameType.text.toByte :: longText))) ∧
    ¬TextAnswered ann.id ann.username longText := by
  have hmax := frameMaxSize_eq
  have hbuffer := bufferSize_eq
  have hlength : longText.length = 1100 := List.length_replicate
  refine ⟨text_handled (by omega), fun h => ?_⟩
  refine not_echoFits_of_unknown ?_ ?_ parseCommand_longText (by omega) (echoFits_of_answered h)
  · exact List.ne_nil_of_length_pos (by omega)
  · exact fun hzero => absurd (List.eq_of_mem_replicate hzero) (by decide)

end CipherChat
