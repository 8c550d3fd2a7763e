-- The digest of a text: SHA-256 over its bytes, written as 64 hexadecimal
-- digits.
import CodeSurvey.Text.Number

namespace CodeSurvey.Text.Digest

/-! ## Words of 32 bits -/

/-- The fractional parts of the cube roots of the first 64 primes. -/
def roundConstants : List UInt32 := [
  0x428a2f98, 0x71374491, 0xb5c0fbcf, 0xe9b5dba5, 0x3956c25b, 0x59f111f1, 0x923f82a4, 0xab1c5ed5,
  0xd807aa98, 0x12835b01, 0x243185be, 0x550c7dc3, 0x72be5d74, 0x80deb1fe, 0x9bdc06a7, 0xc19bf174,
  0xe49b69c1, 0xefbe4786, 0x0fc19dc6, 0x240ca1cc, 0x2de92c6f, 0x4a7484aa, 0x5cb0a9dc, 0x76f988da,
  0x983e5152, 0xa831c66d, 0xb00327c8, 0xbf597fc7, 0xc6e00bf3, 0xd5a79147, 0x06ca6351, 0x14292967,
  0x27b70a85, 0x2e1b2138, 0x4d2c6dfc, 0x53380d13, 0x650a7354, 0x766a0abb, 0x81c2c92e, 0x92722c85,
  0xa2bfe8a1, 0xa81a664b, 0xc24b8b70, 0xc76c51a3, 0xd192e819, 0xd6990624, 0xf40e3585, 0x106aa070,
  0x19a4c116, 0x1e376c08, 0x2748774c, 0x34b0bcb5, 0x391c0cb3, 0x4ed8aa4a, 0x5b9cca4f, 0x682e6ff3,
  0x748f82ee, 0x78a5636f, 0x84c87814, 0x8cc70208, 0x90befffa, 0xa4506ceb, 0xbef9a3f7, 0xc67178f2]

/-- The eight words that a digest is made of. -/
structure State where
  a : UInt32
  b : UInt32
  c : UInt32
  d : UInt32
  e : UInt32
  f : UInt32
  g : UInt32
  h : UInt32

/-- The fractional parts of the square roots of the first eight primes. -/
def State.start : State :=
  ⟨0x6a09e667, 0xbb67ae85, 0x3c6ef372, 0xa54ff53a, 0x510e527f, 0x9b05688c, 0x1f83d9ab, 0x5be0cd19⟩

/-- The word turned right by `n` places, `0 < n < 32`. -/
def turn (x : UInt32) (n : UInt32) : UInt32 := (x >>> n) ||| (x <<< (32 - n))

/-! ## One block -/

/-- The word that follows the sixteen given ones, which stand latest first. -/
def nextWord (latest : List UInt32) : UInt32 :=
  let w2 := latest.getD 1 0
  let w7 := latest.getD 6 0
  let w15 := latest.getD 14 0
  let w16 := latest.getD 15 0
  let s0 := turn w15 7 ^^^ turn w15 18 ^^^ (w15 >>> 3)
  let s1 := turn w2 17 ^^^ turn w2 19 ^^^ (w2 >>> 10)
  w16 + s0 + w7 + s1

/-- The 64 words of a block of sixteen, in order. -/
def schedule (block : List UInt32) : List UInt32 :=
  ((List.range 48).foldl (fun latest _ => nextWord latest :: latest) block.reverse).reverse

/-- One round, with its constant and its word. -/
def State.round (s : State) (k w : UInt32) : State :=
  let s1 := turn s.e 6 ^^^ turn s.e 11 ^^^ turn s.e 25
  let ch := (s.e &&& s.f) ^^^ (~~~ s.e &&& s.g)
  let t1 := s.h + s1 + ch + k + w
  let s0 := turn s.a 2 ^^^ turn s.a 13 ^^^ turn s.a 22
  let maj := (s.a &&& s.b) ^^^ (s.a &&& s.c) ^^^ (s.b &&& s.c)
  ⟨t1 + (s0 + maj), s.a, s.b, s.c, s.d + t1, s.e, s.f, s.g⟩

def State.absorb (s : State) (block : List UInt32) : State :=
  let t := (roundConstants.zip (schedule block)).foldl (fun t (k, w) => t.round k w) s
  ⟨s.a + t.a, s.b + t.b, s.c + t.c, s.d + t.d, s.e + t.e, s.f + t.f, s.g + t.g, s.h + t.h⟩

/-! ## A whole message -/

/-- The message with its end mark, zeros, and its length in bits, a multiple of
64 bytes. -/
def padded (bytes : List UInt8) : List UInt8 :=
  let n := bytes.length
  let zeros : Nat := (119 - n % 64) % 64
  let bits := n * 8
  let mark : List UInt8 := 0x80 :: List.replicate zeros 0
  bytes ++ mark ++ (List.range 8).map (fun i => UInt8.ofNat (bits >>> ((7 - i) * 8)))

/-- The bytes read as words of four, the highest byte first. -/
def wordsOf : List UInt8 → List UInt32
  | a :: b :: c :: d :: r =>
    ((a.toUInt32 <<< 24) ||| (b.toUInt32 <<< 16) ||| (c.toUInt32 <<< 8) ||| d.toUInt32) :: wordsOf r
  | _ => []

/-- The state after all blocks of 64 bytes. -/
def absorbAll (s : State) (bytes : List UInt8) : State :=
  if _h : (bytes.take 64).length < 64 then s
  else absorbAll (s.absorb (wordsOf (bytes.take 64))) (bytes.drop 64)
termination_by bytes.length
decreasing_by simp at _h ⊢; omega

def hexWord (w : UInt32) : List Char :=
  (List.range 8).map (fun i => hexDigit ((w >>> (28 - 4 * i.toUInt32)) &&& 15).toNat)

/-- The digest of the bytes, as 64 digits. -/
def ofBytes (bytes : List UInt8) : String :=
  let s := absorbAll State.start (padded bytes)
  String.ofList ([s.a, s.b, s.c, s.d, s.e, s.f, s.g, s.h].flatMap hexWord)

end CodeSurvey.Text.Digest

namespace CodeSurvey.Text

def digest (s : String) : String := Digest.ofBytes s.toUTF8.toList

example : digest "abc" = "ba7816bf8f01cfea414140de5dae2223b00361a396177a9cb410ff61f20015ad" := by
  decide +kernel

end CodeSurvey.Text
