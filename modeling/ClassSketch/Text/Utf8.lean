import ClassSketch.Text.Quoted

/-!
# Reading UTF-8

`Utf8.decode` turns bytes into characters or reports the first fault: where
it starts, how many bytes it takes up, and what is wrong there. Overlong
forms, surrogates and values past the last code point are faults of the
byte after the lead byte, so a fault never covers a byte that could start
a character.
-/

namespace ClassSketch.Text.Utf8

inductive Reason where
  | invalidStart
  | invalidContinuation
  | unexpectedEnd

/-- A byte sequence that is no character: its first byte, the bytes it takes up. -/
structure Fault where
  reason : Reason
  byte : UInt8
  start : Nat
  length : Nat

def Reason.message : Reason → String
  | invalidStart => "invalid start byte"
  | invalidContinuation => "invalid continuation byte"
  | unexpectedEnd => "unexpected end of data"

def Fault.message (f : Fault) : String :=
  let place :=
    if f.length = 1 then
      "byte 0x" ++ String.ofList (hexDigits 2 f.byte.toNat) ++ " in position " ++ toString f.start
    else "bytes in position " ++ toString f.start ++ "-" ++ toString (f.start + f.length - 1)
  "'utf-8' codec can't decode " ++ place ++ ": " ++ f.reason.message

def isContinuation (b : UInt8) : Bool :=
  0x80 ≤ b && b < 0xC0

/-- Whether `b` may follow the lead byte `lead`. -/
def follows (lead b : UInt8) : Bool :=
  isContinuation b &&
    !(lead == 0xE0 && b < 0xA0) && !(lead == 0xED && 0xA0 ≤ b) &&
    !(lead == 0xF0 && b < 0x90) && !(lead == 0xF4 && 0x90 ≤ b)

/-- Appends the six bits of a continuation byte. -/
def push (n : Nat) (b : UInt8) : Nat :=
  n * 64 + b.toNat % 64

/-- The characters of `bytes`, the first of which stands at offset `pos`. -/
def decodeFrom (pos : Nat) (bytes : List UInt8) : Except Fault (List Char) :=
  match bytes with
  | [] => .ok []
  | b :: rest =>
    if b < 0x80 then (decodeFrom (pos + 1) rest).map (Char.ofNat b.toNat :: ·)
    else if b < 0xC2 || 0xF5 ≤ b then .error ⟨.invalidStart, b, pos, 1⟩
    else match rest with
      | [] => .error ⟨.unexpectedEnd, b, pos, 1⟩
      | c :: rest =>
        if !follows b c then .error ⟨.invalidContinuation, b, pos, 1⟩
        else if b < 0xE0 then
          (decodeFrom (pos + 2) rest).map (Char.ofNat (push (b.toNat % 32) c) :: ·)
        else match rest with
          | [] => .error ⟨.unexpectedEnd, b, pos, 2⟩
          | d :: rest =>
            if !isContinuation d then .error ⟨.invalidContinuation, b, pos, 2⟩
            else if b < 0xF0 then
              (decodeFrom (pos + 3) rest).map (Char.ofNat (push (push (b.toNat % 16) c) d) :: ·)
            else match rest with
              | [] => .error ⟨.unexpectedEnd, b, pos, 3⟩
              | e :: rest =>
                if !isContinuation e then .error ⟨.invalidContinuation, b, pos, 3⟩
                else (decodeFrom (pos + 4) rest).map
                  (Char.ofNat (push (push (push (b.toNat % 8) c) d) e) :: ·)

def decode (bytes : List UInt8) : Except Fault (List Char) :=
  decodeFrom 0 bytes

end ClassSketch.Text.Utf8
