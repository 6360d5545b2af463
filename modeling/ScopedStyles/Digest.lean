/-!
# The BLAKE3 digest

A message is cut into chunks of 1024 bytes, a chunk into blocks of 64; each chunk is compressed to
a chaining value and the chaining values are joined in a binary tree whose left half holds the
largest power of two of chunks. `Digest.hex` writes the 32 bytes of the root in lower case.
-/

namespace ScopedStyles.Digest

/-- Eight words that carry a chunk or a subtree. -/
abbrev Chain := Vector UInt32 8

def iv : Chain :=
  #v[0x6A09E667, 0xBB67AE85, 0x3C6EF372, 0xA54FF53A, 0x510E527F, 0x9B05688C, 0x1F83D9AB, 0x5BE0CD19]

def permutation : Vector (Fin 16) 16 := #v[2, 6, 3, 10, 7, 0, 4, 13, 1, 11, 12, 5, 9, 14, 15, 8]

def chunkStart : UInt32 := 1
def chunkEnd : UInt32 := 2
def parentNode : UInt32 := 4
def rootNode : UInt32 := 8

def rotateRight (w n : UInt32) : UInt32 := (w >>> n) ||| (w <<< (32 - n))

/-- Mixes two message words into one column or diagonal of the state. -/
def mix (v : Vector UInt32 16) (a b c d : Fin 16) (x y : UInt32) : Vector UInt32 16 :=
  let v := v.set a (v[a] + v[b] + x)
  let v := v.set d (rotateRight (v[d] ^^^ v[a]) 16)
  let v := v.set c (v[c] + v[d])
  let v := v.set b (rotateRight (v[b] ^^^ v[c]) 12)
  let v := v.set a (v[a] + v[b] + y)
  let v := v.set d (rotateRight (v[d] ^^^ v[a]) 8)
  let v := v.set c (v[c] + v[d])
  v.set b (rotateRight (v[b] ^^^ v[c]) 7)

def round (v m : Vector UInt32 16) : Vector UInt32 16 :=
  let v := mix v 0 4 8 12 m[0] m[1]
  let v := mix v 1 5 9 13 m[2] m[3]
  let v := mix v 2 6 10 14 m[4] m[5]
  let v := mix v 3 7 11 15 m[6] m[7]
  let v := mix v 0 5 10 15 m[8] m[9]
  let v := mix v 1 6 11 12 m[10] m[11]
  let v := mix v 2 7 8 13 m[12] m[13]
  mix v 3 4 9 14 m[14] m[15]

/-- `n` rounds, the message permuted between them. -/
def rounds : Nat → Vector UInt32 16 → Vector UInt32 16 → Vector UInt32 16
  | 0, v, _ => v
  | n + 1, v, m => rounds n (round v m) (permutation.map (m[·]))

def compress (chain : Chain) (block : Vector UInt32 16) (counter : UInt64) (len flags : UInt32) :
    Chain :=
  let v : Vector UInt32 16 := Vector.ofFn fun i =>
    if h : i < 8 then chain[i]
    else if h : i < 12 then iv[i.val - 8]
    else if i = 12 then counter.toUInt32
    else if i = 13 then (counter >>> 32).toUInt32
    else if i = 14 then len
    else flags
  let v := rounds 7 v block
  Vector.ofFn fun i => v[i] ^^^ v[i.val + 8]

/-- The word whose little-endian bytes stand at `i`, missing bytes read as zero. -/
def wordAt (bytes : Array UInt8) (i : Nat) : UInt32 :=
  let b (k : Nat) : UInt32 := (bytes[i + k]?.getD 0).toUInt32
  b 0 ||| (b 1 <<< 8) ||| (b 2 <<< 16) ||| (b 3 <<< 24)

def blockAt (bytes : Array UInt8) (i : Nat) : Vector UInt32 16 :=
  Vector.ofFn fun k => wordAt bytes (i + 4 * k)

/-- The last compression of a chunk or of a parent, held back because the root is flagged. -/
structure Output where
  chain : Chain
  block : Vector UInt32 16
  counter : UInt64
  len : UInt32
  flags : UInt32

def Output.value (o : Output) : Chain := compress o.chain o.block o.counter o.len o.flags

def Output.root (o : Output) : Chain := compress o.chain o.block 0 o.len (o.flags ||| rootNode)

/-- Compresses the blocks of a chunk but its last. -/
def chunkFrom (bytes : Array UInt8) (counter : UInt64) : Nat → Nat → Chain → Output
  | 0, start, chain => ⟨chain, blockAt bytes start, counter, (bytes.size - start).toUInt32,
      (if start = 0 then chunkStart else 0) ||| chunkEnd⟩
  | n + 1, start, chain => chunkFrom bytes counter n (start + 64)
      (compress chain (blockAt bytes start) counter 64 (if start = 0 then chunkStart else 0))

def chunk (bytes : Array UInt8) (counter : UInt64) : Output :=
  chunkFrom bytes counter ((bytes.size - 1) / 64) 0 iv

def parent (left right : Chain) : Output where
  chain := iv
  block := (left ++ right).cast rfl
  counter := 0
  len := 64
  flags := parentNode

/-- The largest power of two below `n`, at least one. -/
def leftChunks (n : Nat) : Nat := Nat.pow 2 (n - 1).log2

/-- The tree over the `n` chunks from chunk `first` on; `depth` bounds its height. -/
def tree (bytes : Array UInt8) : Nat → Nat → Nat → Output
  | 0, first, _ => chunk (bytes.extract (1024 * first) (1024 * (first + 1))) first.toUInt64
  | depth + 1, first, n =>
    if n ≤ 1 then chunk (bytes.extract (1024 * first) (1024 * (first + 1))) first.toUInt64
    else
      let left := leftChunks n
      parent (tree bytes depth first left).value (tree bytes depth (first + left) (n - left)).value

def hash (bytes : Array UInt8) : Chain :=
  let n := max 1 ((bytes.size + 1023) / 1024)
  (tree bytes (n.log2 + 1) 0 n).root

def hexDigit (n : Nat) : Char := "0123456789abcdef".toList.getD n '0'

def wordHex (w : UInt32) : List Char :=
  [0, 8, 16, 24].flatMap fun (s : UInt32) =>
    let byte := ((w >>> s) &&& 0xFF).toNat
    [hexDigit (byte / 16), hexDigit (byte % 16)]

/-- The 64 hexadecimal digits of a text's digest. -/
def hex (text : String) : String :=
  String.ofList ((hash text.toUTF8.data).toList.flatMap wordHex)

end ScopedStyles.Digest
