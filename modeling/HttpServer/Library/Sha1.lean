import HttpServer.Library.Bits
import Mathlib.Data.List.GetD

set_option autoImplicit false

/-!
# SHA-1

The digest of a message of bits, in the words of its standard: padding, the message schedule,
eighty rounds for each block of 512 bits, and the sums of the words.
-/

namespace Sha1

open Bits

structure Words where
  a : UInt32
  b : UInt32
  c : UInt32
  d : UInt32
  e : UInt32
  deriving DecidableEq

-- The least number of zeros that leaves 64 bits of the last block for the length.
def zeros (length : Nat) : Nat := (959 - length % 512) % 512

def pad (message : List Bool) : List Bool :=
  message ++ true :: List.replicate (zeros message.length) false ++ bits 64 message.length

def word (padded : List Bool) (i : Nat) : UInt32 :=
  UInt32.ofNat (value ((padded.drop (32 * i)).take 32))

def rotl (count : Nat) (x : UInt32) : UInt32 := ⟨x.toBitVec.rotateLeft count⟩

def ch (x y z : UInt32) : UInt32 := (x &&& y) ^^^ (~~~x &&& z)

def parity (x y z : UInt32) : UInt32 := x ^^^ y ^^^ z

def maj (x y z : UInt32) : UInt32 := (x &&& y) ^^^ (x &&& z) ^^^ (y &&& z)

def f (t : Nat) : UInt32 → UInt32 → UInt32 → UInt32 :=
  if t < 20 then ch else if t < 40 then parity else if t < 60 then maj else parity

def k (t : Nat) : UInt32 :=
  if t < 20 then 0x5a827999
  else if t < 40 then 0x6ed9eba1
  else if t < 60 then 0x8f1bbcdc
  else 0xca62c1d6

def initial : Words := ⟨0x67452301, 0xefcdab89, 0x98badcfe, 0x10325476, 0xc3d2e1f0⟩

def schedule (block : Nat → UInt32) (t : Nat) : UInt32 :=
  if t < 16 then block t
  else rotl 1 (schedule block (t - 3) ^^^ schedule block (t - 8) ^^^ schedule block (t - 14) ^^^
    schedule block (t - 16))

def round (w : Nat → UInt32) (s : Words) (t : Nat) : Words where
  a := rotl 5 s.a + f t s.b s.c s.d + s.e + k t + w t
  b := s.a
  c := rotl 30 s.b
  d := s.c
  e := s.d

def Words.add (s t : Words) : Words := ⟨s.a + t.a, s.b + t.b, s.c + t.c, s.d + t.d, s.e + t.e⟩

def rounds (w : Nat → UInt32) (h : Words) : Words := (List.range 80).foldl (round w) h

def compress (block : Nat → UInt32) (h : Words) : Words := h.add (rounds (schedule block) h)

def hash (padded : List Bool) : Words :=
  (List.range (padded.length / 512)).foldl
    (fun h i => compress (fun t => word padded (16 * i + t)) h) initial

def Words.toBits (h : Words) : List Bool :=
  bits 32 h.a.toNat ++ bits 32 h.b.toNat ++ bits 32 h.c.toNat ++ bits 32 h.d.toNat ++
    bits 32 h.e.toNat

def sha1 (message : List Bool) : List Bool := (hash (pad message)).toBits

def digest (message : List UInt8) : List UInt8 := octets 20 (sha1 (ofOctets message))

theorem zeros_least (length : Nat) : (length + 1 + zeros length) % 512 = 448 ∧
    ∀ count, (length + 1 + count) % 512 = 448 → zeros length ≤ count := by
  unfold zeros
  refine ⟨by omega, fun count fits => ?_⟩
  omega

theorem schedule_block {block : Nat → UInt32} {t : Nat} (early : t < 16) :
    schedule block t = block t := by
  rw [schedule, if_pos early]

theorem schedule_late {block : Nat → UInt32} {t : Nat} (late : 16 ≤ t) :
    schedule block t = rotl 1 (schedule block (t - 3) ^^^ schedule block (t - 8) ^^^
      schedule block (t - 14) ^^^ schedule block (t - 16)) := by
  rw [schedule, if_neg (by omega)]

def padOctets (message : List UInt8) : List UInt8 :=
  message ++ 0x80 :: List.replicate ((119 - message.length % 64) % 64) 0 ++
    bigEndian 8 (8 * message.length)

theorem pad_ofOctets (message : List UInt8) : pad (ofOctets message) = ofOctets (padOctets message) := by
  have first : bits 8 (0x80 : UInt8).toNat = true :: List.replicate 7 false := by decide
  have count : zeros (8 * message.length) = 7 + 8 * ((119 - message.length % 64) % 64) := by
    unfold zeros
    omega
  have length : bits 64 (8 * message.length) = ofOctets (bigEndian 8 (8 * message.length)) :=
    bits_bigEndian 8 _
  rw [pad, padOctets, ofOctets_append, ofOctets_append, ofOctets_cons, ofOctets_zeros, first,
    ofOctets_length, count, length, List.cons_append, List.replicate_append_replicate]

-- A word of a message of octets is put together from four of them.
theorem word_ofOctets {octets : List UInt8} {i : Nat} (inside : 4 * i + 4 ≤ octets.length) :
    word (ofOctets octets) i = UInt32.ofNat
      ((((octets.getD (4 * i) 0).toNat * 256 + (octets.getD (4 * i + 1) 0).toNat) * 256 +
        (octets.getD (4 * i + 2) 0).toNat) * 256 + (octets.getD (4 * i + 3) 0).toNat) := by
  have start : 32 * i = 8 * (4 * i) := by omega
  have four : (octets.drop (4 * i)).take 4 =
      [octets.getD (4 * i) 0, octets.getD (4 * i + 1) 0, octets.getD (4 * i + 2) 0,
        octets.getD (4 * i + 3) 0] := by
    have next (n : Nat) (here : n < octets.length) :
        octets.drop n = octets.getD n 0 :: octets.drop (n + 1) := by
      rw [List.drop_eq_getElem_cons here, List.getD_eq_getElem _ _ here]
    rw [next (4 * i) (by omega), next (4 * i + 1) (by omega), next (4 * i + 2) (by omega),
      next (4 * i + 3) (by omega)]
    rfl
  rw [word, start, ofOctets_drop, show (32 : Nat) = 8 * 4 from rfl, ofOctets_take, four, value_four]

theorem sha1_ofOctets (message : List UInt8) :
    sha1 (ofOctets message) = (hash (ofOctets (padOctets message))).toBits := by
  rw [sha1, pad_ofOctets]

theorem toBits_octets (h : Words) : h.toBits = ofOctets (bigEndian 4 h.a.toNat ++
    bigEndian 4 h.b.toNat ++ bigEndian 4 h.c.toNat ++ bigEndian 4 h.d.toNat ++
    bigEndian 4 h.e.toNat) := by
  have word (x : UInt32) : bits 32 x.toNat = ofOctets (bigEndian 4 x.toNat) := bits_bigEndian 4 _
  simp only [Words.toBits, word, ofOctets_append]

end Sha1
