import Countdown.Json.Reader
set_option autoImplicit false

/-!
JSON text in bytes. It is in UTF-8 unless a byte order mark, or the noughts among the first bytes of
a text that starts in ASCII, tell of another encoding.
-/

namespace Countdown.Json

inductive ByteOrder where
  | big
  | little
  deriving DecidableEq, Repr

inductive Encoding where
  | utf8
  | utf16 (order : ByteOrder)
  | utf32 (order : ByteOrder)
  deriving DecidableEq, Repr

def Encoding.ofMark? : List UInt8 → Option (Encoding × List UInt8)
  | 0x00 :: 0x00 :: 0xFE :: 0xFF :: bytes => some (.utf32 .big, bytes)
  | 0xFF :: 0xFE :: 0x00 :: 0x00 :: bytes => some (.utf32 .little, bytes)
  | 0xFE :: 0xFF :: bytes => some (.utf16 .big, bytes)
  | 0xFF :: 0xFE :: bytes => some (.utf16 .little, bytes)
  | 0xEF :: 0xBB :: 0xBF :: bytes => some (.utf8, bytes)
  | _ => none

/-- The encoding of a text without a mark, by the noughts among its first bytes. -/
def Encoding.ofNoughts : List UInt8 → Encoding
  | a :: b :: c :: d :: _ =>
    if a = 0 then if b = 0 then .utf32 .big else .utf16 .big
    else if b = 0 then if c = 0 ∧ d = 0 then .utf32 .little else .utf16 .little
    else .utf8
  | [a, b] => if a = 0 then .utf16 .big else if b = 0 then .utf16 .little else .utf8
  | _ => .utf8

def ByteOrder.join (o : ByteOrder) (size first second : Nat) : Nat :=
  match o with
  | .big => first * size + second
  | .little => second * size + first

def units16? (o : ByteOrder) : List UInt8 → Option (List Nat)
  | [] => some []
  | a :: b :: bytes => (units16? o bytes).map (o.join 0x100 a.toNat b.toNat :: ·)
  | _ => none

def units32? (o : ByteOrder) : List Nat → Option (List Nat)
  | [] => some []
  | a :: b :: ns => (units32? o ns).map (o.join 0x10000 a b :: ·)
  | _ => none

def Encoding.decode? (e : Encoding) (bytes : List UInt8) : Option String :=
  match e with
  | .utf8 => String.fromUTF8? ⟨bytes.toArray⟩
  | .utf16 o => (units16? o bytes).map fun ns =>
      String.ofList (Text.ofCodePoints (Text.joinPairs ns))
  | .utf32 o => do
    let ns ← units32? o (← units16? o bytes)
    if ns.all (· ≤ 0x10FFFF) then some (String.ofList (Text.ofCodePoints ns)) else none

def decode? (bytes : List UInt8) : Option String :=
  match Encoding.ofMark? bytes with
  | some (e, bytes) => e.decode? bytes
  | none => (Encoding.ofNoughts bytes).decode? bytes

end Countdown.Json
