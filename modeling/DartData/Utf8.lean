import DartData.Text.Basic

/-!
# UTF-8

Text as bytes.  `Utf8.decode?` takes exactly the shortest form of each character and refuses
everything else.
-/

namespace DartData.Utf8

/-! ## §1. Writing. -/

/-- A byte of the low bits of a number. -/
def tail (n : Nat) : UInt8 := UInt8.ofNat (0x80 + n % 0x40)

/-- The bytes of a character. -/
def encodeChar (c : Char) : List UInt8 :=
  let n := c.toNat
  if n < 0x80 then [UInt8.ofNat n]
  else if n < 0x800 then [UInt8.ofNat (0xC0 + n / 0x40), tail n]
  else if n < 0x10000 then [UInt8.ofNat (0xE0 + n / 0x1000), tail (n / 0x40), tail n]
  else [UInt8.ofNat (0xF0 + n / 0x40000), tail (n / 0x1000), tail (n / 0x40), tail n]

/-- The bytes of a text. -/
def encode (t : Text) : List UInt8 := (t.map encodeChar).flatten

/-- The bytes of a text, if all of its characters can be written. -/
def encode? (writable : Char → Bool) (t : Text) : Option (List UInt8) :=
  if t.all writable then some (encode t) else none

/-! ## §2. Reading. -/

/-- The bits that a byte after the first adds, if it is one. -/
def tailBits? (b : UInt8) : Option Nat :=
  if 0x80 ≤ b.toNat && b.toNat < 0xC0 then some (b.toNat - 0x80) else none

/-- The character with a code of at least `least`. -/
def char? (least n : Nat) : Option Char :=
  if n < least then none
  else if h : n.isValidChar then some (Char.ofNatAux n h) else none

/-- The text that bytes write, if they are well formed. -/
def decode? : List UInt8 → Option Text
  | [] => some []
  | a :: r =>
    let n := a.toNat
    if n < 0x80 then do return Char.ofNat n :: (← decode? r)
    else if n < 0xC0 then none
    else match r with
      | [] => none
      | b :: r => do
        let x := (← tailBits? b)
        if n < 0xE0 then return (← char? 0x80 ((n - 0xC0) * 0x40 + x)) :: (← decode? r)
        else match r with
          | [] => none
          | c :: r => do
            let y := x * 0x40 + (← tailBits? c)
            if n < 0xF0 then return (← char? 0x800 ((n - 0xE0) * 0x1000 + y)) :: (← decode? r)
            else match r with
              | [] => none
              | d :: r => do
                let z := y * 0x40 + (← tailBits? d)
                if n < 0xF8 then
                  return (← char? 0x10000 ((n - 0xF0) * 0x40000 + z)) :: (← decode? r)
                else none

/-! ## §3. Line ends. -/

/-- Text with a line feed for every line end, be it a carriage return, a line feed or both. -/
def unifyLineEnds : Text → Text
  | [] => []
  | '\r' :: '\n' :: r => '\n' :: unifyLineEnds r
  | '\r' :: r => '\n' :: unifyLineEnds r
  | c :: r => c :: unifyLineEnds r

end DartData.Utf8
