import DataLake.Foundation.Text

/-! SHA-256 of a byte string, as the hexadecimal text that a content-addressed
name carries. Only the shape of the text is used in proofs: that distinct
contents have distinct texts is an assumption wherever it is needed. -/

namespace Foundation

abbrev Bytes := List UInt8

namespace Sha256

abbrev Word := BitVec 32

def initial : List Word :=
  [0x6a09e667#32, 0xbb67ae85#32, 0x3c6ef372#32, 0xa54ff53a#32,
    0x510e527f#32, 0x9b05688c#32, 0x1f83d9ab#32, 0x5be0cd19#32]

def roundConstants : List Word :=
  [0x428a2f98#32, 0x71374491#32, 0xb5c0fbcf#32, 0xe9b5dba5#32, 0x3956c25b#32, 0x59f111f1#32,
    0x923f82a4#32, 0xab1c5ed5#32, 0xd807aa98#32, 0x12835b01#32, 0x243185be#32, 0x550c7dc3#32,
    0x72be5d74#32, 0x80deb1fe#32, 0x9bdc06a7#32, 0xc19bf174#32, 0xe49b69c1#32, 0xefbe4786#32,
    0x0fc19dc6#32, 0x240ca1cc#32, 0x2de92c6f#32, 0x4a7484aa#32, 0x5cb0a9dc#32, 0x76f988da#32,
    0x983e5152#32, 0xa831c66d#32, 0xb00327c8#32, 0xbf597fc7#32, 0xc6e00bf3#32, 0xd5a79147#32,
    0x06ca6351#32, 0x14292967#32, 0x27b70a85#32, 0x2e1b2138#32, 0x4d2c6dfc#32, 0x53380d13#32,
    0x650a7354#32, 0x766a0abb#32, 0x81c2c92e#32, 0x92722c85#32, 0xa2bfe8a1#32, 0xa81a664b#32,
    0xc24b8b70#32, 0xc76c51a3#32, 0xd192e819#32, 0xd6990624#32, 0xf40e3585#32, 0x106aa070#32,
    0x19a4c116#32, 0x1e376c08#32, 0x2748774c#32, 0x34b0bcb5#32, 0x391c0cb3#32, 0x4ed8aa4a#32,
    0x5b9cca4f#32, 0x682e6ff3#32, 0x748f82ee#32, 0x78a5636f#32, 0x84c87814#32, 0x8cc70208#32,
    0x90befffa#32, 0xa4506ceb#32, 0xbef9a3f7#32, 0xc67178f2#32]

def pad (data : Bytes) : Bytes :=
  let zeros := (119 - data.length % 64) % 64
  data ++ 0x80 :: List.replicate zeros 0 ++
    (List.range 8).map fun i => UInt8.ofNat (8 * data.length / 256 ^ (7 - i))

def words : Bytes → List Word
  | a :: b :: c :: d :: rest =>
    BitVec.ofNat 32 (((a.toNat * 256 + b.toNat) * 256 + c.toNat) * 256 + d.toNat) :: words rest
  | _ => []

def blocks : Nat → List Word → List (List Word)
  | 0, _ => []
  | n + 1, ws => ws.take 16 :: blocks n (ws.drop 16)

def smallSigma0 (x : Word) : Word := x.rotateRight 7 ^^^ x.rotateRight 18 ^^^ x >>> 3
def smallSigma1 (x : Word) : Word := x.rotateRight 17 ^^^ x.rotateRight 19 ^^^ x >>> 10
def bigSigma0 (x : Word) : Word := x.rotateRight 2 ^^^ x.rotateRight 13 ^^^ x.rotateRight 22
def bigSigma1 (x : Word) : Word := x.rotateRight 6 ^^^ x.rotateRight 11 ^^^ x.rotateRight 25

def schedule (block : List Word) : List Word :=
  (List.range' 16 48).foldl (fun ws t => ws ++
    [smallSigma1 (ws.getD (t - 2) 0) + ws.getD (t - 7) 0 + smallSigma0 (ws.getD (t - 15) 0) +
      ws.getD (t - 16) 0]) block

def round (h : List Word) (kw : Word × Word) : List Word :=
  match h with
  | [a, b, c, d, e, f, g, h] =>
    let t1 := h + bigSigma1 e + ((e &&& f) ^^^ (~~~e &&& g)) + kw.1 + kw.2
    let t2 := bigSigma0 a + ((a &&& b) ^^^ (a &&& c) ^^^ (b &&& c))
    [t1 + t2, a, b, c, d + t1, e, f, g]
  | _ => h

def compress (h block : List Word) : List Word :=
  List.zipWith (· + ·) h ((roundConstants.zip (schedule block)).foldl round h)

def digest (data : Bytes) : List Word :=
  let ws := words (pad data)
  (blocks (ws.length / 16) ws).foldl compress initial

end Sha256

/-- `hashlib.sha256(data).hexdigest()`. -/
def sha256hex (data : Bytes) : Text := (Sha256.digest data).flatMap fun w => hexDigits 8 w.toNat

example : sha256hex [97, 98, 99] =
    "ba7816bf8f01cfea414140de5dae2223b00361a396177a9cb410ff61f20015ad".toList := by
  decide +kernel

namespace Sha256

theorem length_round {h : List Word} (hh : h.length = 8) (kw : Word × Word) :
    (round h kw).length = 8 := by
  unfold round
  split
  · rfl
  · exact hh

theorem length_rounds (kws : List (Word × Word)) {h : List Word} (hh : h.length = 8) :
    (kws.foldl round h).length = 8 := by
  induction kws generalizing h with
  | nil => exact hh
  | cons kw kws ih => exact ih (length_round hh kw)

theorem length_digest (data : Bytes) : (digest data).length = 8 := by
  have fold : ∀ (bs : List (List Word)) (h : List Word), h.length = 8 →
      (bs.foldl compress h).length = 8 := by
    intro bs
    induction bs with
    | nil => exact fun h hh => hh
    | cons b bs ih =>
      intro h hh
      apply ih
      simp [compress, hh, length_rounds]
  exact fold _ _ rfl

end Sha256

theorem length_sha256hex (data : Bytes) : (sha256hex data).length = 64 := by
  have sum : ∀ ws : List Sha256.Word,
      (ws.flatMap fun w => hexDigits 8 w.toNat).length = 8 * ws.length := by
    intro ws
    induction ws with
    | nil => rfl
    | cons w ws ih => simp only [List.flatMap_cons, List.length_append, length_hexDigits, ih,
        List.length_cons]; omega
  rw [sha256hex, sum, Sha256.length_digest]

theorem mem_sha256hex {data : Bytes} {c : Char} (h : c ∈ sha256hex data) :
    c ∈ "0123456789abcdef".toList := by
  obtain ⟨w, -, hw⟩ := List.mem_flatMap.mp h
  exact mem_hexDigits hw

attribute [irreducible] sha256hex

end Foundation
