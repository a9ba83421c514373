import SimplePki.Octets.BigEndian

/-!
# The second family of secure hash algorithms

Two word widths share one construction: a message is padded to whole blocks of sixteen words, and
each block is mixed into eight chaining words by as many rounds as there are constants.  A digest is
the front of the last chaining words.

## Main definitions

* `Sha2.Width`: the rotations and constants of a word width
* `Sha2.pad`, `Sha2.schedule`, `Sha2.compress`: padding, message schedule and compression
* `Sha2.digest`: the whole digest, cut to a number of octets

## Main results

* `Sha2.length_toOctets`: eight words make eight times as many octets as one
-/

namespace SimplePki.Sha2

/-- The eight chaining words. -/
structure Chain (w : Nat) where
  a : BitVec w
  b : BitVec w
  c : BitVec w
  d : BitVec w
  e : BitVec w
  f : BitVec w
  g : BitVec w
  h : BitVec w

/-- What distinguishes one word width from the other.  A mixing function adds up, bit by bit, two
rotations and a third rotation or shift. -/
structure Width (w : Nat) where
  chainLow : Nat × Nat × Nat
  chainHigh : Nat × Nat × Nat
  messageEarly : Nat × Nat × Nat
  messageLate : Nat × Nat × Nat
  constants : List (BitVec w)

variable {w : Nat}

/-- Three rotations to the right, added bit by bit. -/
def rotations (amounts : Nat × Nat × Nat) (x : BitVec w) : BitVec w :=
  x.rotateRight amounts.1 ^^^ x.rotateRight amounts.2.1 ^^^ x.rotateRight amounts.2.2

/-- Two rotations and a shift to the right, added bit by bit. -/
def rotationsAndShift (amounts : Nat × Nat × Nat) (x : BitVec w) : BitVec w :=
  x.rotateRight amounts.1 ^^^ x.rotateRight amounts.2.1 ^^^ (x >>> amounts.2.2)

/-- The bits of `y` where `x` has ones, and of `z` elsewhere. -/
def choose (x y z : BitVec w) : BitVec w := (x &&& y) ^^^ (~~~x &&& z)

/-- The bits that at least two words agree on. -/
def majority (x y z : BitVec w) : BitVec w := (x &&& y) ^^^ (x &&& z) ^^^ (y &&& z)

/-- How many octets a word has. -/
def wordOctets (w : Nat) : Nat := w / 8

/-- How many octets a block of sixteen words has. -/
def blockOctets (w : Nat) : Nat := 16 * wordOctets w

/-- The message with a single one bit, zero bits, and its length in bits over two words. -/
def pad (w : Nat) (message : Octets) : Octets :=
  -- the marking octet and the length take part in the last block
  let used := message.length + 1 + 2 * wordOctets w
  let zeros := (blockOctets w - used % blockOctets w) % blockOctets w
  message ++ 0x80 :: List.replicate zeros 0 ++
    Octets.lowest (2 * wordOctets w) (8 * message.length)

/-- Pieces of `size` items, behind those already cut off, kept in reverse; a size of zero makes
one piece of everything. -/
def pieces {α : Type} (size : Nat) (found : List (List α)) (items : List α) : List (List α) :=
  if _h : size = 0 ∨ items.length ≤ size then
    if items.isEmpty then found.reverse else (items :: found).reverse
  else pieces size (items.take size :: found) (items.drop size)
termination_by items.length
decreasing_by
  simp only [List.length_drop]
  omega

/-- The sixteen words of a block, extended by the recurrence to one word per round. -/
def schedule (width : Width w) (block : Octets) : Array (BitVec w) :=
  let words := (pieces (wordOctets w) [] block).map fun piece =>
    BitVec.ofNat w (Octets.toNat piece)
  (List.range (width.constants.length - 16)).foldl (fun words _ =>
    let word := fun back => words.getD (words.size - back) 0
    words.push (rotationsAndShift width.messageLate (word 2) + word 7 +
      rotationsAndShift width.messageEarly (word 15) + word 16)) words.toArray

/-- One round, with its constant and its word of the schedule. -/
def round (width : Width w) (chain : Chain w) (constant word : BitVec w) : Chain w :=
  let first := chain.h + rotations width.chainHigh chain.e + choose chain.e chain.f chain.g +
    constant + word
  let second := rotations width.chainLow chain.a + majority chain.a chain.b chain.c
  ⟨first + second, chain.a, chain.b, chain.c, chain.d + first, chain.e, chain.f, chain.g⟩

/-- The chaining words after a block. -/
def compress (width : Width w) (chain : Chain w) (block : Octets) : Chain w :=
  let mixed := (width.constants.zip (schedule width block).toList).foldl
    (fun chain (constant, word) => round width chain constant word) chain
  ⟨chain.a + mixed.a, chain.b + mixed.b, chain.c + mixed.c, chain.d + mixed.d,
    chain.e + mixed.e, chain.f + mixed.f, chain.g + mixed.g, chain.h + mixed.h⟩

/-- The octets of the chaining words. -/
def Chain.toOctets (chain : Chain w) : Octets :=
  [chain.a, chain.b, chain.c, chain.d, chain.e, chain.f, chain.g, chain.h].flatMap
    fun word => Octets.lowest (wordOctets w) word.toNat

/-- The first `size` octets of the chaining words after the whole message. -/
def digest (width : Width w) (initial : Chain w) (size : Nat) (message : Octets) : Octets :=
  (((pieces (blockOctets w) [] (pad w message)).foldl (compress width) initial).toOctets).take size

theorem length_toOctets (chain : Chain w) : chain.toOctets.length = 8 * wordOctets w := by
  simp [Chain.toOctets]
  omega

theorem length_digest (width : Width w) (initial : Chain w) (size : Nat) (message : Octets)
    (h : size ≤ 8 * wordOctets w) : (digest width initial size message).length = size := by
  rw [digest, List.length_take, length_toOctets]
  omega

/-! ### Words of thirty-two bits -/

/-- The mixing of thirty-two bit words. -/
def narrow : Width 32 where
  chainLow := (2, 13, 22)
  chainHigh := (6, 11, 25)
  messageEarly := (7, 18, 3)
  messageLate := (17, 19, 10)
  constants := [
    0x428A2F98, 0x71374491, 0xB5C0FBCF, 0xE9B5DBA5, 0x3956C25B, 0x59F111F1,
    0x923F82A4, 0xAB1C5ED5, 0xD807AA98, 0x12835B01, 0x243185BE, 0x550C7DC3,
    0x72BE5D74, 0x80DEB1FE, 0x9BDC06A7, 0xC19BF174, 0xE49B69C1, 0xEFBE4786,
    0x0FC19DC6, 0x240CA1CC, 0x2DE92C6F, 0x4A7484AA, 0x5CB0A9DC, 0x76F988DA,
    0x983E5152, 0xA831C66D, 0xB00327C8, 0xBF597FC7, 0xC6E00BF3, 0xD5A79147,
    0x06CA6351, 0x14292967, 0x27B70A85, 0x2E1B2138, 0x4D2C6DFC, 0x53380D13,
    0x650A7354, 0x766A0ABB, 0x81C2C92E, 0x92722C85, 0xA2BFE8A1, 0xA81A664B,
    0xC24B8B70, 0xC76C51A3, 0xD192E819, 0xD6990624, 0xF40E3585, 0x106AA070,
    0x19A4C116, 0x1E376C08, 0x2748774C, 0x34B0BCB5, 0x391C0CB3, 0x4ED8AA4A,
    0x5B9CCA4F, 0x682E6FF3, 0x748F82EE, 0x78A5636F, 0x84C87814, 0x8CC70208,
    0x90BEFFFA, 0xA4506CEB, 0xBEF9A3F7, 0xC67178F2]

/-- Where the digest of 256 bits starts. -/
def initial256 : Chain 32 :=
  ⟨0x6A09E667, 0xBB67AE85, 0x3C6EF372, 0xA54FF53A, 0x510E527F, 0x9B05688C,
    0x1F83D9AB, 0x5BE0CD19⟩

/-- Where the digest of 224 bits starts. -/
def initial224 : Chain 32 :=
  ⟨0xC1059ED8, 0x367CD507, 0x3070DD17, 0xF70E5939, 0xFFC00B31, 0x68581511,
    0x64F98FA7, 0xBEFA4FA4⟩

/-! ### Words of sixty-four bits -/

/-- The mixing of sixty-four bit words. -/
def wide : Width 64 where
  chainLow := (28, 34, 39)
  chainHigh := (14, 18, 41)
  messageEarly := (1, 8, 7)
  messageLate := (19, 61, 6)
  constants := [
    0x428A2F98D728AE22, 0x7137449123EF65CD, 0xB5C0FBCFEC4D3B2F, 0xE9B5DBA58189DBBC,
    0x3956C25BF348B538, 0x59F111F1B605D019, 0x923F82A4AF194F9B, 0xAB1C5ED5DA6D8118,
    0xD807AA98A3030242, 0x12835B0145706FBE, 0x243185BE4EE4B28C, 0x550C7DC3D5FFB4E2,
    0x72BE5D74F27B896F, 0x80DEB1FE3B1696B1, 0x9BDC06A725C71235, 0xC19BF174CF692694,
    0xE49B69C19EF14AD2, 0xEFBE4786384F25E3, 0x0FC19DC68B8CD5B5, 0x240CA1CC77AC9C65,
    0x2DE92C6F592B0275, 0x4A7484AA6EA6E483, 0x5CB0A9DCBD41FBD4, 0x76F988DA831153B5,
    0x983E5152EE66DFAB, 0xA831C66D2DB43210, 0xB00327C898FB213F, 0xBF597FC7BEEF0EE4,
    0xC6E00BF33DA88FC2, 0xD5A79147930AA725, 0x06CA6351E003826F, 0x142929670A0E6E70,
    0x27B70A8546D22FFC, 0x2E1B21385C26C926, 0x4D2C6DFC5AC42AED, 0x53380D139D95B3DF,
    0x650A73548BAF63DE, 0x766A0ABB3C77B2A8, 0x81C2C92E47EDAEE6, 0x92722C851482353B,
    0xA2BFE8A14CF10364, 0xA81A664BBC423001, 0xC24B8B70D0F89791, 0xC76C51A30654BE30,
    0xD192E819D6EF5218, 0xD69906245565A910, 0xF40E35855771202A, 0x106AA07032BBD1B8,
    0x19A4C116B8D2D0C8, 0x1E376C085141AB53, 0x2748774CDF8EEB99, 0x34B0BCB5E19B48A8,
    0x391C0CB3C5C95A63, 0x4ED8AA4AE3418ACB, 0x5B9CCA4F7763E373, 0x682E6FF3D6B2B8A3,
    0x748F82EE5DEFB2FC, 0x78A5636F43172F60, 0x84C87814A1F0AB72, 0x8CC702081A6439EC,
    0x90BEFFFA23631E28, 0xA4506CEBDE82BDE9, 0xBEF9A3F7B2C67915, 0xC67178F2E372532B,
    0xCA273ECEEA26619C, 0xD186B8C721C0C207, 0xEADA7DD6CDE0EB1E, 0xF57D4F7FEE6ED178,
    0x06F067AA72176FBA, 0x0A637DC5A2C898A6, 0x113F9804BEF90DAE, 0x1B710B35131C471B,
    0x28DB77F523047D84, 0x32CAAB7B40C72493, 0x3C9EBE0A15C9BEBC, 0x431D67C49C100D4C,
    0x4CC5D4BECB3E42B6, 0x597F299CFC657E2A, 0x5FCB6FAB3AD6FAEC, 0x6C44198C4A475817]

/-- Where the digest of 512 bits starts. -/
def initial512 : Chain 64 :=
  ⟨0x6A09E667F3BCC908, 0xBB67AE8584CAA73B, 0x3C6EF372FE94F82B, 0xA54FF53A5F1D36F1,
    0x510E527FADE682D1, 0x9B05688C2B3E6C1F, 0x1F83D9ABFB41BD6B, 0x5BE0CD19137E2179⟩

/-- Where the digest of 384 bits starts. -/
def initial384 : Chain 64 :=
  ⟨0xCBBB9D5DC1059ED8, 0x629A292A367CD507, 0x9159015A3070DD17, 0x152FECD8F70E5939,
    0x67332667FFC00B31, 0x8EB44A8768581511, 0xDB0C2E0D64F98FA7, 0x47B5481DBEFA4FA4⟩

end SimplePki.Sha2
