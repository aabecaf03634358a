import CollectionRunner.Text.Utf8

/-!
Base64: three bytes as four characters, the last group filled up with `=`.
-/

namespace CollectionRunner.Text

/-- The character for the six bits `n % 64`. -/
def base64Char (n : Nat) : Char :=
  let d := n % 64
  Char.ofNat
    (if d < 26 then 0x41 + d
     else if d < 52 then 0x61 + (d - 26)
     else if d < 62 then 0x30 + (d - 52)
     else if d = 62 then 0x2B else 0x2F)

/-- The Base64 text of some bytes. -/
def base64 : Bytes → List Char
  | [] => []
  | [a] =>
    let n := a.toNat * 16
    [base64Char (n / 64), base64Char n, '=', '=']
  | [a, b] =>
    let n := (a.toNat * 256 + b.toNat) * 4
    [base64Char (n / 4096), base64Char (n / 64), base64Char n, '=']
  | a :: b :: c :: rest =>
    let n := (a.toNat * 256 + b.toNat) * 256 + c.toNat
    base64Char (n / 262144) :: base64Char (n / 4096) :: base64Char (n / 64) :: base64Char n ::
      base64 rest

example : base64 [0x75, 0x3A, 0x70] = ['d', 'T', 'p', 'w'] := by decide

end CollectionRunner.Text
