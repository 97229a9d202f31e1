import CipherChat.Frame
import Mathlib.Data.List.DropRight

/-!
# Typed commands

`command_parser.c`.  The parser cuts its buffer in place by writing NULs; on the
C string held in the buffer each cut is a `takeWhile` or a `dropWhile`.
-/

namespace CipherChat

/-- `ParsedCommand`, with the fields each `ClientCommand` fills in. -/
inductive ParsedCommand
  | unknown
  | invalid
  | privateMessage (username message : Bytes)
  | broadcastMessage (message : Bytes)
  | listUsers
  | help
  | quit
  | fileTransfer (username filepath : Bytes)
  deriving DecidableEq, Repr

def skipWhitespace (text : Bytes) : Bytes := text.dropWhile isSpace

def removeLineEnding (text : Bytes) : Bytes := text.rdropWhile fun b => b == 10 || b == 13

/-- `parse_command`, on the C string in `command`. -/
def parseCommand (command : Bytes) : ParsedCommand :=
  let line := skipWhitespace (removeLineEnding command)
  let verb := line.takeWhile (!isSpace ·)
  let arguments := skipWhitespace ((line.dropWhile (!isSpace ·)).drop 1)
  if verb = ascii "/list" then if arguments = [] then .listUsers else .invalid
  else if verb = ascii "/help" then if arguments = [] then .help else .invalid
  else if verb = ascii "/quit" then if arguments = [] then .quit else .invalid
  else if verb = ascii "/broadcast" then
    if arguments = [] then .invalid else .broadcastMessage arguments
  else if verb = ascii "/msg" then
    let username := arguments.takeWhile (!isSpace ·)
    let rest := arguments.dropWhile (!isSpace ·)
    if arguments = [] ∨ rest = [] then .invalid
    else
      let message := skipWhitespace (rest.drop 1)
      if message = [] ∨ usernameSize ≤ username.length then .invalid
      else .privateMessage username message
  else if verb = ascii "/file" then
    let username := arguments.takeWhile (!isSpace ·)
    let rest := arguments.dropWhile (!isSpace ·)
    if arguments = [] ∨ rest = [] then .invalid
    else
      let filepath := (skipWhitespace (rest.drop 1)).rdropWhile isSpace
      if filepath = [] ∨ usernameSize ≤ username.length then .invalid
      else .fileTransfer username filepath
  else .unknown

/-- The bytes up to the next white space. -/
def token (text : Bytes) : Bytes := text.takeWhile (!isSpace ·)

/-- The bytes from the next token on, behind the current one. -/
def nextToken (text : Bytes) : Bytes := skipWhitespace ((text.dropWhile (!isSpace ·)).drop 1)

/-- A private message is `/msg`, a name of at most 31 bytes, and a text. -/
theorem parseCommand_privateMessage {line username message : Bytes}
    (h : parseCommand line = .privateMessage username message) :
    let text := skipWhitespace (removeLineEnding line)
    token text = ascii "/msg" ∧ username = token (nextToken text) ∧
      message = nextToken (nextToken text) ∧ nextToken text ≠ [] ∧ message ≠ [] ∧
      username.length < usernameSize := by
  unfold parseCommand at h
  dsimp only at h
  split_ifs at h with _ _ _ _ _ _ _ _ hverb hargs htext
  obtain ⟨rfl, rfl⟩ := ParsedCommand.privateMessage.inj h
  rw [not_or] at hargs htext
  exact ⟨hverb, rfl, rfl, hargs.1, htext.1, not_le.mp htext.2⟩

/-- A file transfer is `/file`, a name of at most 31 bytes, and a path. -/
theorem parseCommand_fileTransfer {line username filepath : Bytes}
    (h : parseCommand line = .fileTransfer username filepath) :
    let text := skipWhitespace (removeLineEnding line)
    token text = ascii "/file" ∧ username = token (nextToken text) ∧
      filepath = (nextToken (nextToken text)).rdropWhile isSpace ∧ nextToken text ≠ [] ∧
      filepath ≠ [] ∧ username.length < usernameSize := by
  unfold parseCommand at h
  dsimp only at h
  split_ifs at h with _ _ _ _ _ _ _ _ _ _ _ hverb hargs htext
  obtain ⟨rfl, rfl⟩ := ParsedCommand.fileTransfer.inj h
  rw [not_or] at hargs htext
  exact ⟨hverb, rfl, rfl, hargs.1, htext.1, not_le.mp htext.2⟩

end CipherChat
