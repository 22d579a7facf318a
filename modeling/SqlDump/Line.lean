import SqlDump.Text.Utf8

/-!
# Lines of a byte stream

Bytes arrive in chunks and leave as text made of complete lines, so neither a
character nor a marker is cut by the end of a chunk.
-/

namespace SqlDump

def blocksOf (size : Nat) (content : Bytes) : List Bytes :=
  if content = [] ∨ size = 0 then []
  else content.take size :: blocksOf size (content.drop size)
termination_by content.length
decreasing_by
  rename_i more
  have positive : 0 < content.length := List.length_pos_iff.2 fun empty =>
    more (.inl empty)
  have taken : size ≠ 0 := fun none => more (.inr none)
  rw [List.length_drop]
  omega

theorem flatten_blocksOf {size : Nat} (positive : 0 < size) (content : Bytes) :
    (blocksOf size content).flatten = content := by
  fun_induction blocksOf size content with
  | case1 content nothing =>
      have empty : content = [] := nothing.resolve_right (Nat.ne_of_gt positive)
      rw [empty]
      rfl
  | case2 content more ih => rw [List.flatten_cons, ih, List.take_append_drop]

structure LineAssembler where
  /-- The bytes behind the last line break. -/
  pending : Bytes := []
  lines : Nat := 0
deriving DecidableEq, Repr

namespace LineAssembler

def lineFeed : UInt8 := 0x0A

/-- The part of a chunk through its last line feed. -/
def completePart (chunk : Bytes) : Bytes :=
  (chunk.reverse.dropWhile (· != lineFeed)).reverse

/-- The part of a chunk behind its last line feed. -/
def unfinishedPart (chunk : Bytes) : Bytes :=
  (chunk.reverse.takeWhile (· != lineFeed)).reverse

/-- The text of the lines that `chunk` completes, if it completes any. -/
def push (assembler : LineAssembler) (chunk : Bytes) :
    LineAssembler × Option Text :=
  match completePart chunk with
  | [] => ({ assembler with pending := assembler.pending ++ chunk }, none)
  | complete =>
      ({ pending := unfinishedPart chunk
         lines := assembler.lines + complete.count lineFeed },
        some (Utf8.decodeLossy (assembler.pending ++ complete)))

def finish (assembler : LineAssembler) : LineAssembler × Option Text :=
  match assembler.pending with
  | [] => (assembler, none)
  | _ :: _ =>
      ({ pending := [], lines := assembler.lines + 1 },
        some (Utf8.decodeLossy assembler.pending))

end LineAssembler

end SqlDump
