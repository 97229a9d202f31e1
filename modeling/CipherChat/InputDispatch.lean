import CipherChat.ClientPrivacy

/-!
# Typed file commands

`handle_input` looks for `/file` at the first byte of the line, and for `/msg` behind the
white space that starts it.  `parse_command` skips that white space for both, so a file
command that is typed after a space goes to the server as a text.
-/

namespace CipherChat

open Resumption Prog

/-- What `handle_input` takes a line for. -/
inductive InputKind
  | empty | fileCommand | privateMessage | tooLong | text
  deriving DecidableEq, Repr

/-- The tests of `handle_input`, in its order. -/
def inputKind (line : Bytes) : InputKind :=
  if line = [] then .empty
  else if startsWithVerb line (ascii "/file") then .fileCommand
  else if startsWithVerb (line.dropWhile isSpace) (ascii "/msg") then .privateMessage
  else if frameMaxSize - 1 < line.length then .tooLong
  else .text

def handleKind (s : ClientState) (line : Bytes) : InputKind → ClientProg ClientState
  | .empty | .tooLong => pure s
  | .fileCommand => do
    let (result, s) ← handleFileCommand s line
    pure (s.afterSend result)
  | .privateMessage => do
    let (result, s) ← handlePrivateMessage s line
    pure (s.afterSend result)
  | .text => do
    let result ← sendFrame .text line
    let s := s.afterSend result
    pure (if result = .ok () ∧ line = ascii "/quit" then { s with connected := false } else s)

theorem handleInput_eq (s : ClientState) (line : Bytes) :
    handleInput s line = handleKind s line (inputKind line) := by
  unfold handleInput inputKind
  split
  · rfl
  split
  · rfl
  split
  · rfl
  split
  · rfl
  · rfl

/-- Some run of the program sends a `FRAME_TEXT`. -/
def SendsText (p : ClientProg ClientState) : Prop :=
  ∃ answers text, (FrameType.text, text) ∈ tracedFrames (p.trace answers)

/-- `handle_input` calls `handle_file_command`, and sends no text, on the lines that are file
commands to the parser, and on no other. -/
def FileRecognised (s : ClientState) (line : Bytes) : Prop :=
  (inputKind line = .fileCommand ∧ ¬SendsText (handleInput s line) ↔
    FirstToken line (ascii "/file")) ∧
  (FirstToken line (ascii "/file") ↔ FirstToken (removeLineEnding line) (ascii "/file")) ∧
  ∀ username filepath, parseCommand line = .fileTransfer username filepath →
    ¬SendsText (handleInput s line)

theorem firstToken_removeLineEnding {line v : Bytes} (hv : v ≠ []) :
    FirstToken line v ↔ FirstToken (removeLineEnding line) v := by
  obtain ⟨space, hline, hspace⟩ := removeLineEnding_append line
  constructor
  · intro h
    rw [firstToken_iff hv] at h ⊢
    by_cases hnil : skipWhitespace (removeLineEnding line) = []
    · -- a blank line has no token
      have hblank : Blank (removeLineEnding line) := by
        obtain ⟨w, hw, htext⟩ := blank_skipWhitespace (removeLineEnding line)
        rwa [htext, hnil, List.append_nil]
      rw [hline, skipWhitespace_blank (hblank.append hspace)] at h
      exact absurd h.symm hv
    · rwa [hline, skipWhitespace_append space hnil, token_append hspace] at h
  · rintro ⟨w, rest, hw, hsolid, hrest, htext⟩
    refine ⟨w, rest ++ space, hw, hsolid, ?_, by rw [hline, htext]; simp⟩
    cases rest with
    | nil => exact Blank.apart hspace
    | cons b rest => exact hrest

theorem ascii_file_ne : ascii "/file" ≠ [] := ascii_ofList_ne_nil (by simp)

theorem firstToken_of_fileTransfer {line username filepath : Bytes}
    (h : parseCommand line = .fileTransfer username filepath) :
      FirstToken line (ascii "/file") := by
  rw [firstToken_removeLineEnding ascii_file_ne, firstToken_iff ascii_file_ne]
  exact (parseCommand_fileTransfer h).1

theorem inputKind_fileCommand {line : Bytes} (hline : line ≠ []) :
    inputKind line = .fileCommand ↔ Flush line ∧ FirstToken line (ascii "/file") := by
  have hsolid : ∀ b ∈ ascii "/file", isSpace b = false := forall_ascii_ofList rfl
  have hkind : inputKind line = .fileCommand ↔ token line = ascii "/file" := by
    rw [← startsWithVerb_iff hsolid, inputKind, if_neg hline]
    split
    · next h => exact iff_of_true rfl h
    · next h =>
      refine iff_of_false ?_ h
      split
      · nofun
      · split <;> nofun
  rw [hkind, firstToken_iff ascii_file_ne]
  constructor
  · intro h
    have hflush : Flush line := by
      cases line with
      | nil => exact absurd rfl hline
      | cons b rest =>
        intro c hc
        obtain rfl : b = c := Option.some.inj hc
        by_contra hspace
        rw [token, List.takeWhile_cons_of_neg (by simpa using hspace)] at h
        exact ascii_file_ne h.symm
    exact ⟨hflush, by rwa [skipWhitespace_flush hflush]⟩
  · rintro ⟨hflush, h⟩
    rwa [skipWhitespace_flush hflush] at h

theorem not_sendsText_fileCommand (s : ClientState) {line : Bytes}
    (h : inputKind line = .fileCommand) : ¬SendsText (handleInput s line) := by
  rintro ⟨answers, text, hmem⟩
  obtain ⟨name, hasks⟩ := asks_handleFileCommand s line
  have hall : (asks name).follows false (handleInput s line) fun _ _ => True := by
    rw [handleInput_eq, h, handleKind, Discipline.follows_bind]
    exact Discipline.follows_mono (fun _ _ _ => Discipline.follows_pure trivial) hasks
  rcases asks_tracedFrames (Discipline.follows_trace answers hall) with hnone | ⟨-, hone⟩
  · rw [hnone] at hmem
    cases hmem
  · rw [hone, List.mem_singleton] at hmem
    cases hmem

def anyAnswer : (o : ClientOp) → o.Resp
  | .note _ => ()
  | .sendAll _ => .ok ()
  | .malloc => none
  | .strdup => true
  | .randombytesBuf => ⟨Receiver.sampleNonce, Receiver.sampleNonce_length⟩
  | .readFile _ =>
    { size := 0, content := [], nonce := ⟨Receiver.sampleNonce, Receiver.sampleNonce_length⟩ }
  | .fileCalls => {}
  | .displayMessage _ => ()
  | .displayPrivateMessage _ _ => ()

theorem sendsText_of_kind (s : ClientState) {line : Bytes} (h : inputKind line = .text) :
    SendsText (handleInput s line) := by
  rw [handleInput_eq, h]
  exact ⟨[anyAnswer], line, List.mem_singleton.mpr rfl⟩

/-- File commands are recognised, and their paths kept from the server, exactly on the lines
that do not have white space before `/file`. -/
theorem file_recognised_iff (s : ClientState) {line : Bytes} (hline : line ≠ []) :
    FileRecognised s line ↔
      ¬((∃ b ∈ line.head?, isSpace b = true) ∧ FirstToken line (ascii "/file")) := by
  have hspace : (∃ b ∈ line.head?, isSpace b = true) ↔ ¬Flush line := by
    simp only [Flush, not_forall, Bool.not_eq_false, exists_prop]
  rw [hspace, not_and]
  constructor
  · rintro ⟨hkind, -⟩ hflush hfirst
    exact hflush ((inputKind_fileCommand hline).mp (hkind.mpr hfirst).1).1
  · intro h
    have hfile : FirstToken line (ascii "/file") → inputKind line = .fileCommand := by
      intro hfirst
      have hflush : Flush line := by
        by_contra hno
        exact h hno hfirst
      exact (inputKind_fileCommand hline).mpr ⟨hflush, hfirst⟩
    refine ⟨⟨fun hkind => ((inputKind_fileCommand hline).mp hkind.1).2, fun hfirst =>
      ⟨hfile hfirst, not_sendsText_fileCommand s (hfile hfirst)⟩⟩,
      firstToken_removeLineEnding ascii_file_ne, fun username filepath hparse => ?_⟩
    exact not_sendsText_fileCommand s (hfile (firstToken_of_fileTransfer hparse))

def freshClient : ClientState := { files := .start Receiver.emptyStore }

theorem file_recognised_iff_bob : FileRecognised freshClient (ascii "/file bob a") := by
  have hline : ascii "/file bob a" ≠ [] := ascii_ofList_ne_nil (by simp)
  refine (file_recognised_iff freshClient hline).mpr ?_
  rintro ⟨⟨b, hb, hspace⟩, -⟩
  rw [head?_ascii_ofList] at hb
  obtain rfl := Option.some.inj hb
  cases hspace

/-- ` /file bob a` is a file command to the parser, and a text to the server. -/
theorem file_path_sent_as_text :
    parseCommand (ascii " /file bob a") = .fileTransfer (ascii "bob") (ascii "a") ∧
    SendsText (handleInput freshClient (ascii " /file bob a")) ∧
    ¬FileRecognised freshClient (ascii " /file bob a") := by
  have hline : parseCommand (ascii " /file bob a") = .fileTransfer (ascii "bob") (ascii "a") ∧
      inputKind (ascii " /file bob a") = .text := by
    decide +kernel
  have hsends := sendsText_of_kind freshClient hline.2
  exact ⟨hline.1, hsends, fun h => h.2.2 _ _ hline.1 hsends⟩

end CipherChat
