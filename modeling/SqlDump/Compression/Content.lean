import SqlDump.Host

/-!
# Content of inputs

Only inputs that are not compressed can be read.  A compressed one is refused,
and where its first bytes already show that it does not have the format of its
name, with that as the reason.
-/

namespace SqlDump

namespace Compression

/-- The bytes of a file are fetched in blocks of this many. -/
def blockSize : Compression → Nat
  | .gzip => 32768
  | .zstd => 131075
  | _ => 8192

/-- The first block is fetched when the file is opened, not when it is first
read. -/
def looksAhead (compression : Compression) : Bool :=
  compression == .gzip

def gzipHeaderSize : Nat := 10

/-- The mark of a gzip file and of the one method it knows. -/
def gzipMark : Bytes := [0x1F, 0x8B, 0x08]

/-- The header is judged when all of it is there, and something must follow
it. -/
def gzipFault (stored : Bytes) : ContentFault :=
  if stored.length < gzipHeaderSize then .truncated
  else if stored.take gzipMark.length ≠ gzipMark then .unmarked
  else if stored.length = gzipHeaderSize then .truncated
  else .unsupported

def bzip2Mark : Bytes := [0x42, 0x5A, 0x68]

def bzip2BlockMarks : List Bytes :=
  [[0x31, 0x41, 0x59, 0x26, 0x53, 0x59], [0x17, 0x72, 0x45, 0x38, 0x50, 0x90]]

/-- The mark, a digit for the block size and the mark of a block, judged byte by
byte. -/
def bzip2Fault (stored : Bytes) : ContentFault :=
  let level := stored.drop bzip2Mark.length
  let block := level.drop 1
  if !(stored.take bzip2Mark.length).isPrefixOf bzip2Mark then .unmarked
  else if level.head?.any (fun byte => byte < 0x31 || 0x39 < byte) then
    .unmarked
  else if block = [] then .truncated
  else if !bzip2BlockMarks.any (fun mark =>
      (block.take mark.length).isPrefixOf mark) then
    .damaged
  else if block.length < 6 then .truncated
  else .unsupported

def littleEndian (bytes : Bytes) : Nat :=
  bytes.foldr (fun byte number => byte.toNat + 256 * number) 0

def xzMark : Bytes := [0xFD, 0x37, 0x7A, 0x58, 0x5A, 0x00]

def xzHeaderSize : Nat := 12

/-- A power of two, or the sum of two neighbouring ones, or one of the
extremes. -/
def isDictionarySize (size : Nat) : Bool :=
  size == 0 || size == 4294967295 ||
    (List.range 32).any fun exponent =>
      size == Nat.pow 2 exponent || size == 3 * Nat.pow 2 exponent

/-- A file of the older format has no mark: a byte for three parameters, four
bytes for the size of the dictionary and eight for the size of the content. -/
def lzmaFault (parameters : UInt8) (sizes : Bytes) : ContentFault :=
  let number := parameters.toNat
  let content := littleEndian ((sizes.drop 4).take 8)
  if 224 < number ∨ 4 < number % 9 + number / 9 % 5 then .unmarked
  else if sizes.length < 4 then .truncated
  else if !isDictionarySize (littleEndian (sizes.take 4)) then .unmarked
  else if sizes.length < 12 then .truncated
  else if content ≠ 18446744073709551615 ∧ 274877906944 ≤ content then .unmarked
  else .unsupported

/-- The first byte of the mark tells the two formats of the extension apart. -/
def xzFault : Bytes → ContentFault
  | [] => .truncated
  | first :: rest =>
      if first = 0xFD then
        if rest.length + 1 < xzHeaderSize then .truncated
        else if (first :: rest).take xzMark.length = xzMark then .unsupported
        else .unmarked
      else lzmaFault first rest

def zstdMark : Bytes := [0x28, 0xB5, 0x2F, 0xFD]

/-- The mark of a frame to be skipped; half of its first byte is free. -/
def zstdSkipMark : Bytes := [0x50, 0x2A, 0x4D, 0x18]

def beginsSkipped (begun : Bytes) : Bool :=
  match begun with
  | [] => true
  | first :: rest =>
      first &&& 0xF0 == 0x50 && rest.isPrefixOf (zstdSkipMark.drop 1)

/-- The mark is judged byte by byte, and behind it one more byte is needed. -/
def zstdFault (stored : Bytes) : ContentFault :=
  let begun := stored.take zstdMark.length
  if !begun.isPrefixOf zstdMark ∧ !beginsSkipped begun then .unmarked
  else if stored.length ≤ zstdMark.length then .truncated
  else .unsupported

/-- The content of a file stored as `stored`. -/
def content (compression : Compression) (stored : Bytes) :
    Except FileError Bytes :=
  match compression with
  | .none => .ok stored
  | .gzip => .error (.content .gzip (gzipFault stored))
  | .bzip2 => .error (.content .bzip2 (bzip2Fault stored))
  | .xz => .error (.content .xz (xzFault stored))
  | .zstd => .error (.content .zstd (zstdFault stored))

end Compression

end SqlDump
