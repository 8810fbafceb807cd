import Lox.Text.Quoted

/-!
# Decoding UTF-8

Bytes are decoded strictly: overlong forms, surrogates and code points above the last plane are
refused. The first byte that cannot be part of a character is reported, together with the bytes
before it that belong to the same broken character.
-/
namespace Lox.Text

/-- Why bytes are no UTF-8. -/
inductive Utf8Error.Reason where
  | invalidStart
  | invalidContinuation
  | truncated
  deriving DecidableEq, Repr

/-- The wording of a reason. -/
def Utf8Error.Reason.message : Utf8Error.Reason → String
  | invalidStart => "invalid start byte"
  | invalidContinuation => "invalid continuation byte"
  | truncated => "unexpected end of data"

/-- A broken character: the position and value of its first byte, and the number of its bytes. -/
structure Utf8Error where
  position : Nat
  first : UInt8
  count : Nat
  reason : Utf8Error.Reason
  deriving DecidableEq, Repr

/-- The wording of a decoding error: the byte if it is only one, and otherwise the range of them. -/
def Utf8Error.message (e : Utf8Error) : String :=
  "'utf-8' codec can't decode " ++
    (if e.count = 1 then
      "byte 0x" ++ String.ofList (hex 2 e.first.toNat) ++ " in position " ++ toString e.position
    else
      "bytes in position " ++ toString e.position ++ "-" ++ toString (e.position + e.count - 1)) ++
    ": " ++ e.reason.message

/-- Whether a byte continues a character. -/
def isContinuation (b : UInt8) : Bool :=
  0x80 ≤ b && b < 0xC0

/-- The number of bytes of a character, by its first byte; zero if none starts with it. -/
def utf8Length (first : UInt8) : Nat :=
  if first < 0x80 then 1
  else if first < 0xC2 then 0
  else if first < 0xE0 then 2
  else if first < 0xF0 then 3
  else if first < 0xF5 then 4
  else 0

/-- Whether a byte may follow the first byte of a character. Behind some first bytes a part of the
continuation bytes is excluded: they would make an overlong form, a surrogate, or a code point that
is too great. -/
def isSecond (first second : UInt8) : Bool :=
  isContinuation second &&
    (if first = 0xE0 then 0xA0 ≤ second
    else if first = 0xED then second < 0xA0
    else if first = 0xF0 then 0x90 ≤ second
    else if first = 0xF4 then second < 0x90
    else true)

/-- The bytes that go on a character, at most `wanted` of them. The flag tells that a byte which
does not belong to it ended the search. -/
def continuations (first : UInt8) : Nat → List UInt8 → List UInt8 × Bool
  | 0, _ => ([], false)
  | _ + 1, [] => ([], false)
  | wanted + 1, b :: rest =>
    if isSecond first b then
      let (more, broken) := go wanted rest
      (b :: more, broken)
    else ([], true)
where
  go : Nat → List UInt8 → List UInt8 × Bool
    | 0, _ => ([], false)
    | _ + 1, [] => ([], false)
    | wanted + 1, b :: rest =>
      if isContinuation b then
        let (more, broken) := go wanted rest
        (b :: more, broken)
      else ([], true)

/-- The code point of a character of several bytes. -/
def codePoint (first : UInt8) (more : List UInt8) : Nat :=
  let lead := match more.length with
    | 0 => first.toNat
    | 1 => first.toNat % 0x20
    | 2 => first.toNat % 0x10
    | _ => first.toNat % 0x08
  more.foldl (fun n b => n * 0x40 + b.toNat % 0x40) lead

/-- Decodes bytes that begin at a position, at most `fuel` characters of them. -/
def decodeFrom : Nat → Nat → List UInt8 → Except Utf8Error (List Char)
  | _, _, [] => .ok []
  | 0, _, _ => .ok []
  | fuel + 1, position, first :: rest =>
    let length := utf8Length first
    if length = 0 then .error ⟨position, first, 1, .invalidStart⟩
    else
      match continuations first (length - 1) rest with
      | (more, true) => .error ⟨position, first, more.length + 1, .invalidContinuation⟩
      | (more, false) =>
        if more.length + 1 < length then .error ⟨position, first, more.length + 1, .truncated⟩
        else do
          let later ← decodeFrom fuel (position + length) (rest.drop more.length)
          return Char.ofNat (codePoint first more) :: later

/-- The characters that bytes encode. -/
def decodeUtf8 (bytes : List UInt8) : Except Utf8Error (List Char) :=
  decodeFrom bytes.length 0 bytes

example : decodeUtf8 [0xE2, 0x82, 0xAC] = .ok ['€'] := rfl
example : decodeUtf8 [0x61, 0xE2, 0x82] = .error ⟨1, 0xE2, 2, .truncated⟩ := rfl

end Lox.Text
