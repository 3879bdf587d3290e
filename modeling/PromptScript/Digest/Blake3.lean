/-! # BLAKE3

The hash of a text, as hexadecimal digits. The text is cut into chunks and these into blocks; the chunks are the
leaves of a binary tree, and the hash is the value of its root. -/
namespace PromptScript.Blake3

/-- A list of words. -/
abbrev Words := Array UInt32

/-- The words that every chunk starts from. -/
def initial : Words :=
  #[0x6A09E667, 0xBB67AE85, 0x3C6EF372, 0xA54FF53A, 0x510E527F, 0x9B05688C, 0x1F83D9AB, 0x5BE0CD19]

/-- Where each word of a block stands in the next round. -/
def order : List Nat := [2, 6, 3, 10, 7, 0, 4, 13, 1, 11, 12, 5, 9, 14, 15, 8]

/-- The first block of a chunk, -/
def chunkStart : UInt32 := 1

/-- the last one, -/
def chunkEnd : UInt32 := 2

/-- a node with two children, -/
def parent : UInt32 := 4

/-- and the root of the tree are told apart by these marks. -/
def root : UInt32 := 8

/-- A word of a list. -/
def word (ws : Words) (i : Nat) : UInt32 := ws.getD i 0

/-- Turns the bits of a word to the right. -/
def rotate (x : UInt32) (n : UInt32) : UInt32 := (x >>> n) ||| (x <<< (32 - n))

/-- Mixes two words of a block into four words of the state. -/
def mix (s : Words) (a b c d : Nat) (x y : UInt32) : Words :=
  let wa := word s a + word s b + x
  let wd := rotate (word s d ^^^ wa) 16
  let wc := word s c + wd
  let wb := rotate (word s b ^^^ wc) 12
  let wa := wa + wb + y
  let wd := rotate (wd ^^^ wa) 8
  let wc := wc + wd
  let wb := rotate (wb ^^^ wc) 7
  (((s.setIfInBounds a wa).setIfInBounds b wb).setIfInBounds c wc).setIfInBounds d wd

/-- Mixes a block into the columns and the diagonals of the state. -/
def round (s m : Words) : Words :=
  let s := mix s 0 4 8 12 (word m 0) (word m 1)
  let s := mix s 1 5 9 13 (word m 2) (word m 3)
  let s := mix s 2 6 10 14 (word m 4) (word m 5)
  let s := mix s 3 7 11 15 (word m 6) (word m 7)
  let s := mix s 0 5 10 15 (word m 8) (word m 9)
  let s := mix s 1 6 11 12 (word m 10) (word m 11)
  let s := mix s 2 7 8 13 (word m 12) (word m 13)
  mix s 3 4 9 14 (word m 14) (word m 15)

/-- Several rounds, each on the words of the block in a new order. -/
def rounds : Nat → Words → Words → Words
  | 0, s, _ => s
  | n + 1, s, m => rounds n (round s m) (order.map (word m)).toArray

/-- What a compression takes: the value before it, a block with its number of bytes, the number of the chunk, and
marks. -/
structure Node where
  before : Words
  block : Words
  counter : Nat
  length : Nat
  marks : UInt32
  deriving Inhabited, Repr

/-- The value of a node, with further marks. -/
def Node.value (n : Node) (marks : UInt32) : Words :=
  let s := n.before ++ initial.extract 0 4 ++
    #[UInt32.ofNat n.counter, UInt32.ofNat (n.counter / Nat.pow 2 32), UInt32.ofNat n.length, n.marks ||| marks]
  let s := rounds 7 s n.block
  ((List.range 8).map fun i => word s i ^^^ word s (i + 8)).toArray

/-- The words of a block; missing bytes count as zero. -/
def wordsOf (bytes : List UInt8) : Words :=
  let byte := fun (i : Nat) => (bytes.getD i 0).toUInt32
  ((List.range 16).map fun i =>
    byte (4 * i) ||| (byte (4 * i + 1) <<< 8) ||| (byte (4 * i + 2) <<< 16) ||| (byte (4 * i + 3) <<< 24)).toArray

/-- Pieces of `n` bytes, the last one of fewer; without bytes one empty piece. -/
def pieces (n : Nat) (bytes : List UInt8) : List (List UInt8) :=
  (List.range (max 1 ((bytes.length + n - 1) / n))).map fun i => (bytes.drop (i * n)).take n

/-- The last node of the blocks of a chunk. -/
def chunkNode (counter : Nat) : Words → UInt32 → List (List UInt8) → Node
  | before, marks, [] => ⟨before, wordsOf [], counter, 0, marks ||| chunkEnd⟩
  | before, marks, [block] => ⟨before, wordsOf block, counter, block.length, marks ||| chunkEnd⟩
  | before, marks, block :: r =>
    chunkNode counter ((Node.mk before (wordsOf block) counter block.length marks).value 0) 0 r

/-- The node of a chunk. -/
def ofChunk (counter : Nat) (bytes : List UInt8) : Node := chunkNode counter initial chunkStart (pieces 64 bytes)

/-- The node over two others. -/
def join (a b : Node) : Node := ⟨initial, a.value 0 ++ b.value 0, 0, 64, parent⟩

/-- Joins neighbours; the last node may be left over. -/
def joined : List Node → List Node
  | a :: b :: r => join a b :: joined r
  | r => r

/-- The root over a list of nodes. -/
def rootOf : Nat → List Node → Node
  | _, [] => default
  | _, [n] => n
  | 0, n :: _ => n
  | fuel + 1, ns => rootOf fuel (joined ns)

/-- A byte as two hexadecimal digits. -/
def hexByte (n : Nat) : List Char := [Nat.digitChar (n / 16), Nat.digitChar (n % 16)]

/-- A word as hexadecimal digits, its lowest byte first. -/
def hexWord (w : UInt32) : List Char :=
  (List.range 4).flatMap fun i => hexByte (w.toNat / Nat.pow 256 i % 256)

/-- The hash of bytes. -/
def hash (bytes : List UInt8) : List Char :=
  let chunks := pieces 1024 bytes
  let nodes := (chunks.zip (List.range chunks.length)).map fun (chunk, i) => ofChunk i chunk
  ((rootOf nodes.length nodes).value root).toList.flatMap hexWord

/-- The hash of a text in UTF-8. -/
def hashText (s : String) : String := String.ofList (hash s.toUTF8.toList)

end PromptScript.Blake3
