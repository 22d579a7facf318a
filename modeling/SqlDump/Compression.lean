import SqlDump.Path

/-!
# Compression of inputs

The format of a file follows from its extension.
-/

namespace SqlDump

inductive Compression where
  | none
  | gzip
  | bzip2
  | xz
  | zstd
deriving DecidableEq, Repr

namespace Compression

def name : Compression → Text
  | .none => "none".toList
  | .gzip => "gzip".toList
  | .bzip2 => "bzip2".toList
  | .xz => "xz".toList
  | .zstd => "zstd".toList

def extensions : List (Text × Compression) :=
  [("gz".toList, .gzip), ("gzip".toList, .gzip), ("bz2".toList, .bzip2),
    ("bzip2".toList, .bzip2), ("xz".toList, .xz), ("lzma".toList, .xz),
      ("zst".toList, .zstd),
    ("zstd".toList, .zstd)]

def ofPath (path : Text) : Compression :=
  match Path.extension? path with
  | some ending => (extensions.lookup (ending.map Char.toLower)).getD .none
  | _ => .none

/-- The name of the decompressed file. -/
def stripExtension (compression : Compression) (fileName : Text) : Text :=
  if compression = .none then fileName
  else
    let ending := fileName.reverse.takeWhile (· != '.')
    if ending.length < fileName.length then
      fileName.take (fileName.length - ending.length - 1)
    else fileName

end Compression

end SqlDump
