/-
Evlampy/Message.lean

Messages as the server stores them and the wire carries them, and the text of a
message id: two hexadecimal numbers, the steady clock and a draw from the
generator, around a dash.
-/
import Evlampy.Cxx

namespace Evlampy

open Cxx

/-- `enum class MessageStatus`.  Its underlying type is `int`, and a cast may
produce any value of it, not only the three enumerators. -/
structure MessageStatus where
  value : Int32
  deriving DecidableEq

namespace MessageStatus

/-- Stored, and handed to nobody. -/
def sent : MessageStatus := ⟨0⟩

/-- Handed to a handler of the receiver. -/
def delivered : MessageStatus := ⟨1⟩

/-- No code of the repository sets it. -/
def read : MessageStatus := ⟨2⟩

end MessageStatus

/-- The members of a message, in the order of the source. -/
structure Message where
  messageId : Str
  sender : Str
  receiver : Str
  chatId : Str
  encryptedSessionKey : Bytes
  encryptedSelfSessionKey : Bytes
  encryptedPayload : Bytes
  timestamp : Int64
  status : MessageStatus
  isGroupMessage : Bool
  deletedForAll : Bool
  deriving DecidableEq

/-- `generateId`, from the clock reading and the generator's draw. -/
def generateId (now rnd : Nat) : Str := Digits.text 16 now ++ str "-" ++ Digits.text 16 rnd

/-- `Message::build`, from the generated id and the current time. -/
def Message.build (messageId : Str) (nowUnixMillis : Int64) (sender receiver : Str)
    (encryptedSessionKey encryptedPayload encryptedSelfSessionKey : Bytes) (chatId : Str)
    (isGroupMessage : Bool) : Message where
  messageId := messageId
  sender := sender
  receiver := receiver
  chatId := chatId
  encryptedSessionKey := encryptedSessionKey
  encryptedSelfSessionKey := encryptedSelfSessionKey
  encryptedPayload := encryptedPayload
  timestamp := nowUnixMillis
  status := .sent
  isGroupMessage := isGroupMessage
  deletedForAll := false

/-- An id consists of hexadecimal digits and dashes. -/
theorem mem_generateId {now rnd : Nat} {c : UInt8} (h : c ∈ generateId now rnd) :
    c = 45 ∨ (48 ≤ c ∧ c ≤ 57) ∨ (97 ≤ c ∧ c ≤ 102) := by
  have hdash : str "-" = [45] := by decide
  rw [generateId, List.mem_append, List.mem_append] at h
  rcases h with (h | h) | h
  · obtain ⟨d, hd, rfl⟩ := Digits.mem_text (by omega) h
    exact Or.inr (Digits.digit_range hd)
  · rw [hdash] at h
    exact Or.inl (List.mem_singleton.mp h)
  · obtain ⟨d, hd, rfl⟩ := Digits.mem_text (by omega) h
    exact Or.inr (Digits.digit_range hd)

end Evlampy
