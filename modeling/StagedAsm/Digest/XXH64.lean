/-!
# The XXH64 digest

A 64-bit digest with seed 0: stripes of 32 bytes go through four lanes, what is left is folded in by
eights, by fours and one by one, and a final mix spreads the bits.
-/

namespace StagedAsm.Digest.XXH64

def prime1 : UInt64 := 0x9E3779B185EBCA87
def prime2 : UInt64 := 0xC2B2AE3D27D4EB4F
def prime3 : UInt64 := 0x165667B19E3779F9
def prime4 : UInt64 := 0x85EBCA77C2B2AE63
def prime5 : UInt64 := 0x27D4EB2F165667C5

/-- Rotates to the left by `n` places, for `0 < n < 64`. -/
def rotate (x n : UInt64) : UInt64 := (x <<< n) ||| (x >>> (64 - n))

/-- The number whose bytes, lowest first, are `bytes`. -/
def word (bytes : List UInt8) : UInt64 :=
  bytes.foldr (fun b rest => b.toUInt64 + (rest <<< 8)) 0

def round (lane input : UInt64) : UInt64 := rotate (lane + input * prime2) 31 * prime1

def merge (digest lane : UInt64) : UInt64 := (digest ^^^ round 0 lane) * prime1 + prime4

structure Lanes where
  first : UInt64 := prime1 + prime2
  second : UInt64 := prime2
  third : UInt64 := 0
  fourth : UInt64 := 0 - prime1

/-- Takes `n` stripes off the front and returns what is left. -/
def stripes : Nat → Lanes → List UInt8 → Lanes × List UInt8
  | 0, lanes, bytes => (lanes, bytes)
  | n + 1, lanes, bytes =>
    stripes n
      { first := round lanes.first (word (bytes.take 8))
        second := round lanes.second (word ((bytes.drop 8).take 8))
        third := round lanes.third (word ((bytes.drop 16).take 8))
        fourth := round lanes.fourth (word ((bytes.drop 24).take 8)) }
      (bytes.drop 32)

def converge (l : Lanes) : UInt64 :=
  let digest := rotate l.first 1 + rotate l.second 7 + rotate l.third 12 + rotate l.fourth 18
  merge (merge (merge (merge digest l.first) l.second) l.third) l.fourth

/-- Folds `n` words of eight bytes in and returns what is left. -/
def eights : Nat → UInt64 → List UInt8 → UInt64 × List UInt8
  | 0, digest, bytes => (digest, bytes)
  | n + 1, digest, bytes =>
    eights n (rotate (digest ^^^ round 0 (word (bytes.take 8))) 27 * prime1 + prime4)
      (bytes.drop 8)

def four (digest : UInt64) (bytes : List UInt8) : UInt64 × List UInt8 :=
  if bytes.length < 4 then (digest, bytes)
  else
    (rotate (digest ^^^ (word (bytes.take 4) * prime1)) 23 * prime2 + prime3, bytes.drop 4)

def one (digest : UInt64) (byte : UInt8) : UInt64 :=
  rotate (digest ^^^ (byte.toUInt64 * prime5)) 11 * prime1

def avalanche (digest : UInt64) : UInt64 :=
  let digest := (digest ^^^ (digest >>> 33)) * prime2
  let digest := (digest ^^^ (digest >>> 29)) * prime3
  digest ^^^ (digest >>> 32)

def digest (bytes : List UInt8) : UInt64 :=
  let (lanes, rest) := stripes (bytes.length / 32) {} bytes
  let start := if bytes.length < 32 then prime5 else converge lanes
  let (folded, rest) := eights (rest.length / 8) (start + UInt64.ofNat bytes.length) rest
  let (folded, rest) := four folded rest
  avalanche (rest.foldl one folded)

def hex (x : UInt64) : String :=
  let digits := Nat.toDigits 16 x.toNat
  String.ofList (List.replicate (16 - digits.length) '0' ++ digits)

def hexOfText (text : String) : String := hex (digest text.toUTF8.toList)

end StagedAsm.Digest.XXH64
