namespace Callees.Text

inductive Fault
  | badStart
  | badContinuation
  | cutShort
  deriving Repr, DecidableEq

def Fault.words : Fault → String
  | badStart => "invalid start byte"
  | badContinuation => "invalid continuation byte"
  | cutShort => "unexpected end of data"

structure Broken where
  fault : Fault
  bytes : List UInt8
  deriving Repr, DecidableEq

inductive Piece
  | char (c : Char) (width : Nat)
  | broken (b : Broken)
  deriving Repr, DecidableEq

def isContinuation (b : UInt8) : Bool := 0x80 ≤ b && b < 0xC0

/-- Whether `b` may follow the first byte `a` of a longer character: neither an overlong form, nor
half of a pair, nor beyond the last code point. -/
def mayFollow (a b : UInt8) : Bool :=
  isContinuation b && !(a == 0xE0 && b < 0xA0) && !(a == 0xED && 0xA0 ≤ b) &&
    !(a == 0xF0 && b < 0x90) && !(a == 0xF4 && 0x90 ≤ b)

def low (b : UInt8) : Nat := b.toNat % 64

def pieces : List UInt8 → List Piece
  | [] => []
  | a :: r =>
    if a < 0x80 then .char (Char.ofNat a.toNat) 1 :: pieces r
    else if a < 0xC2 || 0xF5 ≤ a then .broken ⟨.badStart, [a]⟩ :: pieces r
    else
      match r with
      | [] => [.broken ⟨.cutShort, [a]⟩]
      | b :: r2 =>
        if !mayFollow a b then .broken ⟨.badContinuation, [a]⟩ :: pieces (b :: r2)
        else if a < 0xE0 then
          .char (Char.ofNat (a.toNat % 32 * 64 + low b)) 2 :: pieces r2
        else
          match r2 with
          | [] => [.broken ⟨.cutShort, [a, b]⟩]
          | c :: r3 =>
            if !isContinuation c then .broken ⟨.badContinuation, [a, b]⟩ :: pieces (c :: r3)
            else if a < 0xF0 then
              .char (Char.ofNat ((a.toNat % 16 * 64 + low b) * 64 + low c)) 3 :: pieces r3
            else
              match r3 with
              | [] => [.broken ⟨.cutShort, [a, b, c]⟩]
              | d :: r4 =>
                if !isContinuation d then .broken ⟨.badContinuation, [a, b, c]⟩ :: pieces (d :: r4)
                else
                  .char (Char.ofNat (((a.toNat % 8 * 64 + low b) * 64 + low c) * 64 + low d)) 4 ::
                    pieces r4

def Piece.shown : Piece → Char
  | char c _ => c
  | broken _ => '\uFFFD'

def decode (bytes : List UInt8) : List Char := (pieces bytes).map Piece.shown

def encode (cs : List Char) : List UInt8 := cs.flatMap String.utf8EncodeChar

/-- The first piece that is no character, and its offset. -/
def firstBroken (o : Nat) : List Piece → Option (Nat × Broken)
  | [] => none
  | .char _ width :: ps => firstBroken (o + width) ps
  | .broken b :: _ => some (o, b)

/-- The characters, unless some bytes are none. -/
def decodeStrict (bytes : List UInt8) : Except (Nat × Broken) (List Char) :=
  match firstBroken 0 (pieces bytes) with
  | some fault => .error fault
  | none => .ok (decode bytes)

end Callees.Text
