import CipherChat.Lib.BigEndian
import Mathlib.Data.List.TakeWhile

/-!
# Frames, sizes and character classes

`common.h`: the frame types and the wire sizes.  A frame travels as
`[4-byte big-endian 1 + payload length][type][payload]`.
-/

namespace CipherChat

abbrev Bytes := List UInt8

def bufferSize : ℕ := 1024
def messageMaxSize : ℕ := 64 * 1024
def frameMaxSize : ℕ := messageMaxSize + 256
def usernameSize : ℕ := 32
def fileChunkSize : ℕ := 900

def chatPublicKeySize : ℕ := 32
def chatNonceSize : ℕ := 24
def chatMacSize : ℕ := 16
def chatOverhead : ℕ := 1 + chatNonceSize + chatPublicKeySize + chatMacSize
def chatMaxMessageSize : ℕ := messageMaxSize

/-- The sizes as numbers, for proofs that count bytes. -/
theorem frameMaxSize_eq : frameMaxSize = 65792 := rfl

theorem messageMaxSize_eq : messageMaxSize = 65536 := rfl

theorem chatMaxMessageSize_eq : chatMaxMessageSize = 65536 := rfl

theorem bufferSize_eq : bufferSize = 1024 := rfl

theorem usernameSize_eq : usernameSize = 32 := rfl

/-- `client_manager.h`: a 64-bit number per login, handed out in order and never
reused within 2^64 logins. -/
abbrev ClientId := ℕ

def invalidClientId : ClientId := 0
def maxClients : ℕ := 100

/-- The `errno` values the modelled code sets or passes on. -/
inductive Errno
  | EINVAL | EMSGSIZE | ENOMEM | ENOBUFS | ENOENT | EEXIST | ENOSPC | EPROTO | ECONNRESET | EPIPE
  | EBADF | EIO | EAGAIN | EFBIG | EBADMSG | ENOTDIR | ENAMETOOLONG | ENOTCONN
  | other (n : ℕ)
  deriving DecidableEq, Repr

inductive FrameType
  | fileBegin | fileChunk | fileEnd | fileError | text | requestPk | peerPk | ciphertext |
    registerPk
  deriving DecidableEq, Repr

namespace FrameType

/-- The value of the enumerator, as written on the wire. -/
def toByte : FrameType → UInt8
  | fileBegin => 0
  | fileChunk => 1
  | fileEnd => 2
  | fileError => 3
  | text => 4
  | requestPk => 5
  | peerPk => 6
  | ciphertext => 7
  | registerPk => 8

/-- The cast `(FrameType)byte`, on the bytes that name an enumerator. -/
def ofByte (b : UInt8) : Option FrameType :=
  [fileBegin, fileChunk, fileEnd, fileError, text, requestPk, peerPk, ciphertext, registerPk].find?
    fun t => t.toByte == b

@[simp] theorem ofByte_toByte (t : FrameType) : ofByte t.toByte = some t := by
  cases t <;> rfl

theorem toByte_of_ofByte {b : UInt8} {t : FrameType} (h : ofByte b = some t) : t.toByte = b := by
  have := List.find?_some h
  simpa using this

theorem toByte_injective : Function.Injective toByte := by
  intro s t h
  have := congrArg ofByte h
  simpa using this

/-- The frames that `server_files.c` relays under a transfer id. -/
def isFile : FrameType → Bool
  | fileBegin | fileChunk | fileEnd | fileError => true
  | _ => false

end FrameType

/-- `is_valid_frame_type((FrameType)byte)`. -/
def isValidFrameType (b : UInt8) : Bool := (FrameType.ofByte b).isSome

/-- The bytes `send_frame` and the worker put on the wire for one frame. -/
def encodeFrame (type : FrameType) (payload : Bytes) : Bytes :=
  BigEndian.encode 4 (1 + payload.length) ++ type.toByte :: payload

@[simp] theorem encodeFrame_length (type : FrameType) (payload : Bytes) :
    (encodeFrame type payload).length = 5 + payload.length := by
  simp [encodeFrame]
  omega

/-- `isspace`: space, tab, newline, vertical tab, form feed, carriage return. -/
def isSpace (b : UInt8) : Bool := b == 32 || (9 ≤ b && b ≤ 13)

/-- `iscntrl`: 0 to 31 and 127. -/
def isCntrl (b : UInt8) : Bool := b < 32 || b == 127

/-- The bytes of an ASCII literal. -/
def ascii (s : String) : Bytes := s.toList.map fun c => UInt8.ofNat c.toNat

/-- A literal is `String.ofList` of its characters, so this computes the bytes of one. -/
theorem ascii_ofList (cs : List Char) :
    ascii (String.ofList cs) = cs.map fun c => UInt8.ofNat c.toNat := by
  rw [ascii, String.toList_ofList]

theorem length_ascii_ofList (cs : List Char) : (ascii (String.ofList cs)).length = cs.length := by
  rw [ascii_ofList, List.length_map]

theorem forall_ascii_ofList {cs : List Char} {p : UInt8 → Bool}
    (h : (cs.map fun c => UInt8.ofNat c.toNat).any p = false) :
    ∀ b ∈ ascii (String.ofList cs), p b = false := by
  rw [ascii_ofList]
  simpa using h

theorem ascii_ofList_ne_nil {cs : List Char} (h : cs ≠ []) : ascii (String.ofList cs) ≠ [] := by
  rwa [ascii_ofList, Ne, List.map_eq_nil_iff]

theorem head?_ascii_ofList (c : Char) (cs : List Char) :
    (ascii (String.ofList (c :: cs))).head? = some (UInt8.ofNat c.toNat) := by
  rw [ascii_ofList, List.map_cons, List.head?_cons]

theorem ascii_ofList_isPrefix {cs ds : List Char} (h : cs <+: ds) :
    ascii (String.ofList cs) <+: ascii (String.ofList ds) := by
  rw [ascii_ofList, ascii_ofList]
  exact h.map _

theorem isDigit_of_mem_repr {n : ℕ} {b : UInt8} (h : b ∈ ascii (Nat.repr n)) : 48 ≤ b ∧ b ≤ 57 := by
  rw [ascii, Nat.toList_repr] at h
  obtain ⟨c, hc, rfl⟩ := List.mem_map.mp h
  have hd := Nat.isDigit_of_mem_toDigits (by decide) (by decide) hc
  simp only [Char.isDigit, Bool.and_eq_true, decide_eq_true_eq] at hd
  have h1 : 48 ≤ c.toNat := UInt32.le_iff_toNat_le.mp hd.1
  have h2 : c.toNat ≤ 57 := UInt32.le_iff_toNat_le.mp hd.2
  have hmod : (UInt8.ofNat c.toNat).toNat = c.toNat := by
    rw [UInt8.toNat_ofNat']
    exact Nat.mod_eq_of_lt (by omega)
  constructor
  · apply UInt8.le_iff_toNat_le.mpr
    rw [hmod]
    exact h1
  · apply UInt8.le_iff_toNat_le.mpr
    rw [hmod]
    exact h2

theorem ascii_repr_injective {m n : ℕ} (h : ascii (Nat.repr m) = ascii (Nat.repr n)) : m = n := by
  have hback : ∀ n : ℕ, (ascii (Nat.repr n)).map (fun b => Char.ofNat b.toNat) =
      Nat.toDigits 10 n := by
    intro n
    rw [ascii, Nat.toList_repr, List.map_map]
    refine (List.map_congr_left fun c hc => ?_).trans (List.map_id _)
    have hd := Nat.isDigit_of_mem_toDigits (by decide) (by decide) hc
    simp only [Char.isDigit, Bool.and_eq_true, decide_eq_true_eq] at hd
    have h2 : c.toNat ≤ 57 := UInt32.le_iff_toNat_le.mp hd.2
    simp only [Function.comp, UInt8.toNat_ofNat', id]
    rw [Nat.mod_eq_of_lt (by omega)]
    exact Char.ofNat_toNat c
  have hdigits : Nat.toDigits 10 m = Nat.toDigits 10 n := by rw [← hback, ← hback, h]
  rw [← Nat.ofDigitChars_ten_toDigits (n := m), hdigits, Nat.ofDigitChars_ten_toDigits]

/-- A number ends where the byte after it stands, unless that is a digit. -/
theorem repr_delimited_inj {m n : ℕ} {d : UInt8} {u v : Bytes} (hd : d < 48 ∨ 57 < d)
    (h : ascii (Nat.repr m) ++ d :: u = ascii (Nat.repr n) ++ d :: v) : m = n := by
  have hw : ∀ (n : ℕ) (u : Bytes),
      (ascii (Nat.repr n) ++ d :: u).takeWhile (· != d) = ascii (Nat.repr n) := by
    intro n u
    rw [List.takeWhile_append_of_pos]
    · simp
    · intro b hb
      obtain ⟨hlow, hhigh⟩ := isDigit_of_mem_repr hb
      simp only [bne_iff_ne]
      rintro rfl
      rcases hd with hd | hd
      · exact absurd hlow (UInt8.not_le.mpr hd)
      · exact absurd hhigh (UInt8.not_le.mpr hd)
  apply ascii_repr_injective
  rw [← hw m u, h, hw]

end CipherChat
