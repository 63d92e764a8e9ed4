import HttpServer.Core.Base64
import HttpServer.Library.Sha1

set_option autoImplicit false

namespace HttpServer.Server

open Unicode Text HttpServer.Core Bits
open Sha1 (Words)

-- The standard library's encoder.
def base64Encode (bytes : Bytes) : Str :=
  base64Digits (bytes.map UInt8.toNat) ++ padding bytes.length

def guid : Str := str "258EAFA5-E914-47DA-95CA-C5AB0DC85B11"

def rotate (value : UInt32) (bits : Int32) : UInt32 :=
  (value <<< bits.toUInt32) ||| (value >>> (32 - bits).toUInt32)

-- `while data.length() % 64 != 56`, which takes fewer than 64 rounds.
def pushZeros : Nat → Bytes → Bytes
  | 0, data => data
  | fuel + 1, data => if data.length % 64 ≠ 56 then pushZeros fuel (data ++ [0]) else data

def lengthBytes (input : Bytes) : Bytes :=
  let bits := UInt64.ofNat input.length * 8
  (List.range 8).map fun i => ((bits >>> UInt64.ofNat ((7 - i) * 8)) &&& 255).toUInt8

def paddedInput (input : Bytes) : Bytes := pushZeros 64 (input ++ [0x80]) ++ lengthBytes input

def packed (data : Bytes) (j : Nat) : UInt32 :=
  ((data.getD j 0).toUInt32 <<< 24) ||| ((data.getD (j + 1) 0).toUInt32 <<< 16) |||
    ((data.getD (j + 2) 0).toUInt32 <<< 8) ||| (data.getD (j + 3) 0).toUInt32

def loadWords (data : Bytes) (block : Nat) (w : List UInt32) : List UInt32 :=
  (List.range 16).foldl (fun w i => w.set i (packed data (block * 64 + i * 4))) w

def extendWords (w : List UInt32) : List UInt32 :=
  (List.range' 16 64).foldl (fun w i =>
    w.set i (rotate (w.getD (i - 3) 0 ^^^ w.getD (i - 8) 0 ^^^ w.getD (i - 14) 0 ^^^
      w.getD (i - 16) 0) 1)) w

def roundStep (w : List UInt32) (s : Words) (i : Nat) : Words :=
  let (f, k) :=
    if i < 20 then ((s.b &&& s.c) ||| ((s.b ^^^ 0xffffffff) &&& s.d), (0x5a827999 : UInt32))
    else if i < 40 then (s.b ^^^ s.c ^^^ s.d, 0x6ed9eba1)
    else if i < 60 then ((s.b &&& s.c) ||| (s.b &&& s.d) ||| (s.c &&& s.d), 0x8f1bbcdc)
    else (s.b ^^^ s.c ^^^ s.d, 0xca62c1d6)
  let next := rotate s.a 5 + f + s.e + k + w.getD i 0
  { a := next, b := s.a, c := rotate s.b 30, d := s.c, e := s.d }

def allRounds (w : List UInt32) (s : Words) : Words := (List.range 80).foldl (roundStep w) s

-- `h` and the array `w`, which the next block writes over.
def blockStep (data : Bytes) (state : List UInt32 × List UInt32) (block : Nat) :
    List UInt32 × List UInt32 :=
  let h := state.1
  let w := extendWords (loadWords data block state.2)
  let start : Words := ⟨h.getD 0 0, h.getD 1 0, h.getD 2 0, h.getD 3 0, h.getD 4 0⟩
  let s := allRounds w start
  ([h.getD 0 0 + s.a, h.getD 1 0 + s.b, h.getD 2 0 + s.c, h.getD 3 0 + s.d, h.getD 4 0 + s.e], w)

def hashWords (data : Bytes) : List UInt32 :=
  ((List.range (data.length / 64)).foldl (blockStep data)
    ([0x67452301, 0xefcdab89, 0x98badcfe, 0x10325476, 0xc3d2e1f0], List.replicate 80 0)).1

def outputBytes (h : List UInt32) : Bytes :=
  (List.range 20).map fun i => ((h.getD (i / 4) 0 >>> UInt32.ofNat ((3 - i % 4) * 8)) &&& 255).toUInt8

def websocketAccept (key : Str) : Str :=
  base64Encode (outputBytes (hashWords (paddedInput (encode (key ++ guid)))))

theorem pushZeros_eq {fuel : Nat} {data : Bytes} (enough : (120 - data.length % 64) % 64 ≤ fuel) :
    pushZeros fuel data = data ++ List.replicate ((120 - data.length % 64) % 64) 0 := by
  induction fuel generalizing data with
  | zero =>
    have none : (120 - data.length % 64) % 64 = 0 := by omega
    rw [none, List.replicate_zero, List.append_nil, pushZeros]
  | succ fuel ih =>
    rw [pushZeros]
    by_cases more : data.length % 64 ≠ 56
    -- One zero more, and one fewer to come.
    · have longer : (data ++ [0]).length = data.length + 1 := by simp
      have count : (120 - data.length % 64) % 64 = (120 - (data.length + 1) % 64) % 64 + 1 := by omega
      rw [if_pos more, ih (by rw [longer]; omega), longer, count, List.replicate_succ,
        List.append_assoc, List.singleton_append]
    · have none : (120 - data.length % 64) % 64 = 0 := by omega
      rw [if_neg more, none, List.replicate_zero, List.append_nil]

theorem lengthByte (n j : Nat) (low : j < 8) :
    (((UInt64.ofNat n * 8) >>> UInt64.ofNat (j * 8)) &&& 255).toUInt8 =
      UInt8.ofNat (8 * n / 2 ^ (8 * j)) := by
  have mask (m : Nat) : m &&& 255 = m % 256 := Nat.and_two_pow_sub_one_eq_mod m 8
  apply UInt8.toNat_inj.mp
  have count : (UInt64.ofNat (j * 8)).toNat % 64 = 8 * j := by
    rw [UInt64.toNat_ofNat']
    omega
  have wide : (UInt64.ofNat n * 8).toNat = 8 * n % 2 ^ 64 := by
    rw [UInt64.toNat_mul, UInt64.toNat_ofNat']
    change n % 2 ^ 64 * 8 % 2 ^ 64 = _
    omega
  rw [UInt64.toNat_toUInt8, UInt64.toNat_and, UInt64.toNat_shiftRight, count, wide, UInt8.toNat_ofNat']
  change ((8 * n % 2 ^ 64) >>> (8 * j) &&& 255) % 2 ^ 8 = _
  rw [mask, Nat.shiftRight_eq_div_pow]
  interval_cases j <;> omega

theorem lengthBytes_eq (input : Bytes) : lengthBytes input = bigEndian 8 (8 * input.length) := by
  have byte := lengthByte input.length
  have bytes : lengthBytes input = [7, 6, 5, 4, 3, 2, 1, 0].map fun j =>
      (((UInt64.ofNat input.length * 8) >>> UInt64.ofNat (j * 8)) &&& 255).toUInt8 := rfl
  rw [bytes]
  simp only [List.map_cons, List.map_nil, bigEndian]
  rw [byte 7 (by omega), byte 6 (by omega), byte 5 (by omega), byte 4 (by omega), byte 3 (by omega),
    byte 2 (by omega), byte 1 (by omega), byte 0 (by omega)]

theorem paddedInput_eq (input : Bytes) : paddedInput input = Sha1.padOctets input := by
  have longer : (input ++ [(0x80 : UInt8)]).length = input.length + 1 := by simp
  have count : (120 - (input.length + 1) % 64) % 64 = (119 - input.length % 64) % 64 := by omega
  rw [paddedInput, pushZeros_eq (by omega), lengthBytes_eq, Sha1.padOctets, longer, count]
  simp

theorem rotate_eq (x : UInt32) :
    rotate x 1 = Sha1.rotl 1 x ∧ rotate x 5 = Sha1.rotl 5 x ∧ rotate x 30 = Sha1.rotl 30 x :=
  ⟨rfl, rfl, rfl⟩

theorem choose_eq (x y z : UInt32) : (x &&& y) ||| ((x ^^^ 0xffffffff) &&& z) = Sha1.ch x y z := by
  have ones : (0xffffffff : UInt32).toBitVec = BitVec.allOnes 32 := rfl
  apply UInt32.toBitVec_inj.mp
  apply BitVec.eq_of_getLsbD_eq
  intro i inside
  simp only [Sha1.ch, UInt32.toBitVec_or, UInt32.toBitVec_and, UInt32.toBitVec_xor,
    UInt32.toBitVec_not, ones, BitVec.getLsbD_or, BitVec.getLsbD_and, BitVec.getLsbD_xor,
    BitVec.getLsbD_not, BitVec.getLsbD_allOnes, inside, decide_true]
  cases x.toBitVec.getLsbD i <;> cases y.toBitVec.getLsbD i <;> cases z.toBitVec.getLsbD i <;> rfl

theorem majority_eq (x y z : UInt32) :
    (x &&& y) ||| (x &&& z) ||| (y &&& z) = Sha1.maj x y z := by
  apply UInt32.toBitVec_inj.mp
  apply BitVec.eq_of_getLsbD_eq
  intro i inside
  simp only [Sha1.maj, UInt32.toBitVec_or, UInt32.toBitVec_and, UInt32.toBitVec_xor,
    BitVec.getLsbD_or, BitVec.getLsbD_and, BitVec.getLsbD_xor]
  cases x.toBitVec.getLsbD i <;> cases y.toBitVec.getLsbD i <;> cases z.toBitVec.getLsbD i <;> rfl

theorem roundStep_eq {w : List UInt32} {schedule : Nat → UInt32} {i : Nat}
    (here : w.getD i 0 = schedule i) (s : Words) : roundStep w s i = Sha1.round schedule s i := by
  unfold roundStep Sha1.round Sha1.f Sha1.k
  rw [here, (rotate_eq s.a).2.1, (rotate_eq s.b).2.2, choose_eq, majority_eq]
  by_cases first : i < 20
  · simp only [first, if_true]
  · by_cases second : i < 40
    · simp only [first, second, if_true, if_false, Sha1.parity]
    · by_cases third : i < 60
      · simp only [first, second, third, if_true, if_false]
      · simp only [first, second, third, if_false, Sha1.parity]

theorem getD_set {w : List UInt32} {i : Nat} (inside : i < w.length) (value : UInt32) (t : Nat) :
    (w.set i value).getD t 0 = if t = i then value else w.getD t 0 := by
  rw [List.getD_eq_getElem?_getD, List.getD_eq_getElem?_getD, List.getElem?_set]
  split
  next same =>
    subst same
    simp
  next other => rw [if_neg (Ne.symm other)]

theorem packBytes (a b c d : UInt8) :
    (a.toUInt32 <<< 24) ||| (b.toUInt32 <<< 16) ||| (c.toUInt32 <<< 8) ||| d.toUInt32 =
      UInt32.ofNat (((a.toNat * 256 + b.toNat) * 256 + c.toNat) * 256 + d.toNat) := by
  have la := a.toNat_lt
  have lb := b.toNat_lt
  have lc := c.toNat_lt
  have ld := d.toNat_lt
  have shifted (x : UInt8) (count : UInt32) (low : count.toNat ≤ 24) :
      (x.toUInt32 <<< count).toNat = x.toNat <<< count.toNat := by
    have fits : x.toNat <<< count.toNat < 2 ^ 32 := by
      rw [Nat.shiftLeft_eq]
      calc x.toNat * 2 ^ count.toNat < 2 ^ 8 * 2 ^ count.toNat :=
            Nat.mul_lt_mul_of_pos_right x.toNat_lt (Nat.two_pow_pos _)
        _ ≤ 2 ^ 8 * 2 ^ 24 := Nat.mul_le_mul_left _ (Nat.pow_le_pow_right (by omega) low)
    have inside : count.toNat % 32 = count.toNat := by omega
    rw [UInt32.toNat_shiftLeft, UInt8.toNat_toUInt32, inside, Nat.mod_eq_of_lt fits]
  have high := shifted a 24 (Nat.le_refl _)
  have second := shifted b 16 (by decide)
  have third := shifted c 8 (by decide)
  apply UInt32.toNat_inj.mp
  rw [UInt32.toNat_or, UInt32.toNat_or, UInt32.toNat_or, high, second, third, UInt8.toNat_toUInt32,
    UInt32.toNat_ofNat']
  change a.toNat <<< 24 ||| b.toNat <<< 16 ||| c.toNat <<< 8 ||| d.toNat = _
  have joined (n m count : Nat) (low : m < 2 ^ count) : n <<< count ||| m = n * 2 ^ count + m := by
    rw [← Nat.shiftLeft_add_eq_or_of_lt low, Nat.shiftLeft_eq]
  rw [Nat.or_assoc, Nat.or_assoc, joined c.toNat d.toNat 8 (by omega), joined b.toNat _ 16 (by omega),
    joined a.toNat _ 24 (by omega)]
  omega

theorem packed_eq {data : Bytes} {i : Nat} (inside : 4 * i + 4 ≤ data.length) :
    packed data (4 * i) = Sha1.word (ofOctets data) i := by
  rw [Sha1.word_ofOctets inside, packed, packBytes]

theorem loadWords_get (data : Bytes) (block : Nat) {w : List UInt32} (whole : w.length = 80) :
    (loadWords data block w).length = 80 ∧
      ∀ t < 16, (loadWords data block w).getD t 0 = packed data (block * 64 + t * 4) := by
  have run : ∀ count ≤ 16, ∀ loaded, (List.range count).foldl
      (fun w i => w.set i (packed data (block * 64 + i * 4))) w = loaded →
      loaded.length = 80 ∧ ∀ t < count, loaded.getD t 0 = packed data (block * 64 + t * 4) := by
    intro count few
    induction count with
    | zero =>
      rintro loaded rfl
      exact ⟨whole, fun t early => absurd early (by omega)⟩
    | succ count ih =>
      rintro loaded rfl
      obtain ⟨length, before⟩ := ih (by omega) _ rfl
      rw [List.range_succ, List.foldl_append, List.foldl_cons, List.foldl_nil]
      refine ⟨by rw [List.length_set, length], fun t early => ?_⟩
      rw [getD_set (by omega)]
      split
      next last => rw [last]
      next other => exact before t (by omega)
  exact run 16 (Nat.le_refl 16) _ rfl

theorem extendWords_get {w : List UInt32} {block : Nat → UInt32} (whole : w.length = 80)
    (loaded : ∀ t < 16, w.getD t 0 = block t) :
    (extendWords w).length = 80 ∧ ∀ t < 80, (extendWords w).getD t 0 = Sha1.schedule block t := by
  have run : ∀ count ≤ 64, ∀ extended, (List.range' 16 count).foldl (fun w i =>
      w.set i (rotate (w.getD (i - 3) 0 ^^^ w.getD (i - 8) 0 ^^^ w.getD (i - 14) 0 ^^^
        w.getD (i - 16) 0) 1)) w = extended →
      extended.length = 80 ∧ ∀ t < 16 + count, extended.getD t 0 = Sha1.schedule block t := by
    intro count few
    induction count with
    | zero =>
      rintro extended rfl
      exact ⟨whole, fun t early => by rw [Sha1.schedule_block early]; exact loaded t early⟩
    | succ count ih =>
      rintro extended rfl
      obtain ⟨length, before⟩ := ih (by omega) _ rfl
      rw [List.range'_1_concat, List.foldl_append, List.foldl_cons, List.foldl_nil]
      refine ⟨by rw [List.length_set, length], fun t early => ?_⟩
      rw [getD_set (by omega), (rotate_eq _).1]
      -- The words that the new one is made of are written already.
      split
      next last =>
        rw [before _ (by omega), before _ (by omega), before _ (by omega), before _ (by omega), last,
          ← Sha1.schedule_late (by omega)]
      next other => exact before t (by omega)
  exact run 64 (Nat.le_refl 64) _ rfl

def wordList (h : Words) : List UInt32 := [h.a, h.b, h.c, h.d, h.e]

theorem allRounds_eq {w : List UInt32} {schedule : Nat → UInt32}
    (here : ∀ i < 80, w.getD i 0 = schedule i) (s : Words) :
    allRounds w s = Sha1.rounds schedule s :=
  List.foldl_ext _ _ _ fun s i member => roundStep_eq (here i (List.mem_range.mp member)) s

theorem blockStep_words (data : Bytes) (h : Words) (w : List UInt32) (block : Nat) :
    blockStep data (wordList h, w) block =
      (wordList (h.add (allRounds (extendWords (loadWords data block w)) h)),
        extendWords (loadWords data block w)) := rfl

theorem blockStep_eq {data : Bytes} {block : Nat} (inside : block < data.length / 64) (h : Words)
    {w : List UInt32} (whole : w.length = 80) :
    (blockStep data (wordList h, w) block).1 = wordList
        (Sha1.compress (fun t => Sha1.word (ofOctets data) (16 * block + t)) h) ∧
      (blockStep data (wordList h, w) block).2.length = 80 := by
  obtain ⟨length, loaded⟩ := loadWords_get data block whole
  have words : ∀ t < 16, (loadWords data block w).getD t 0 =
      Sha1.word (ofOctets data) (16 * block + t) := by
    intro t early
    have place : block * 64 + t * 4 = 4 * (16 * block + t) := by omega
    rw [loaded t early, place, packed_eq (by omega)]
  obtain ⟨length', extended⟩ := extendWords_get length words
  rw [blockStep_words, allRounds_eq extended, Sha1.compress]
  refine ⟨rfl, ?_⟩
  dsimp only
  exact length'

theorem blocks_eq (data : Bytes) {count : Nat} (few : count ≤ data.length / 64) :
    ∃ w : List UInt32, w.length = 80 ∧
      (List.range count).foldl (blockStep data) (wordList Sha1.initial, List.replicate 80 0) =
        (wordList ((List.range count).foldl (fun h i => Sha1.compress
          (fun t => Sha1.word (ofOctets data) (16 * i + t)) h) Sha1.initial), w) := by
  induction count with
  | zero => exact ⟨_, List.length_replicate, rfl⟩
  | succ count ih =>
    obtain ⟨w, whole, before⟩ := ih (by omega)
    rw [List.range_succ, List.foldl_append, List.foldl_append, before, List.foldl_cons,
      List.foldl_nil, List.foldl_cons, List.foldl_nil]
    -- Whatever words the last block left behind are written over.
    generalize (List.range count).foldl _ Sha1.initial = h
    obtain ⟨words, length⟩ := blockStep_eq (show count < data.length / 64 by omega) h whole
    generalize blockStep data (wordList h, w) count = next at words length
    exact ⟨next.2, length, Prod.ext words (Eq.refl _)⟩

theorem hashWords_eq (data : Bytes) : hashWords data = wordList (Sha1.hash (ofOctets data)) := by
  obtain ⟨w, -, run⟩ := blocks_eq data (Nat.le_refl _)
  have blocks : (ofOctets data).length / 512 = data.length / 64 := by
    rw [ofOctets_length]
    omega
  rw [Sha1.hash, blocks]
  exact congrArg Prod.fst run

theorem wordByte (x : UInt32) (j : Nat) (low : j < 4) :
    ((x >>> UInt32.ofNat (j * 8)) &&& 255).toUInt8 = UInt8.ofNat (x.toNat / 2 ^ (8 * j)) := by
  have mask (m : Nat) : m &&& 255 = m % 256 := Nat.and_two_pow_sub_one_eq_mod m 8
  apply UInt8.toNat_inj.mp
  have count : (UInt32.ofNat (j * 8)).toNat % 32 = 8 * j := by
    rw [UInt32.toNat_ofNat']
    omega
  rw [UInt32.toNat_toUInt8, UInt32.toNat_and, UInt32.toNat_shiftRight, count, UInt8.toNat_ofNat']
  change (x.toNat >>> (8 * j) &&& 255) % 2 ^ 8 = _
  rw [mask, Nat.shiftRight_eq_div_pow]
  omega

theorem outputBytes_eq (h : Words) : ofOctets (outputBytes (wordList h)) = h.toBits := by
  have four (x : UInt32) : [3, 2, 1, 0].map (fun j => ((x >>> UInt32.ofNat (j * 8)) &&& 255).toUInt8) =
      bigEndian 4 x.toNat := by
    simp only [List.map_cons, List.map_nil, bigEndian]
    rw [wordByte x 3 (by omega), wordByte x 2 (by omega), wordByte x 1 (by omega),
      wordByte x 0 (by omega)]
  rw [Sha1.toBits_octets, ← four h.a, ← four h.b, ← four h.c, ← four h.d, ← four h.e]
  rfl

/-- The SHA-1 of the key and the fixed identifier, in Base64. -/
theorem websocketAccept_digest (key : Str) :
    websocketAccept key = base64Encode (Sha1.digest (encode key ++ encode guid)) := by
  -- The identifier does not begin with the second half of a surrogate pair.
  have message : encode (key ++ guid) = encode key ++ encode guid := by
    obtain ⟨digit, rest, starts, ascii⟩ : ∃ digit rest, guid = digit :: rest ∧ digit.toNat < 0x80 :=
      ⟨unit '2', _, rfl, by decide⟩
    rw [starts, encode, codePoints_append_ascii key digit rest ascii, List.flatMap_append,
      ← codePoints_cons_ascii digit rest ascii]
    rfl
  have digest (input : Bytes) :
      outputBytes (hashWords (paddedInput input)) = Sha1.digest input := by
    rw [hashWords_eq, paddedInput_eq, Sha1.digest, Sha1.sha1_ofOctets, ← outputBytes_eq]
    exact (octets_ofOctets _).symm
  unfold websocketAccept
  rw [message]
  exact congrArg base64Encode (digest _)

example : websocketAccept (str "dGhlIHNhbXBsZSBub25jZQ==") = str "s3pPLMBiTxaQ9kYGzzhZRbK+xOo=" := by
  decide +kernel

end HttpServer.Server
