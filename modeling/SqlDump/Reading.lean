import SqlDump.Compression.Content
import SqlDump.Progress

/-!
# Reading of inputs

An opened input gives bytes by one read after the other.  The bytes of a
compressed file come from a codec, which fetches the stored bytes in its own
way.
-/

namespace SqlDump

/-- What one read of an opened input gives. -/
structure Read where
  /-- Numbers of stored bytes fetched so far, each as it is reported. -/
  fetched : List Nat := []
  /-- No bytes are the end of the input. -/
  outcome : Except FileError Bytes

structure OpenedInput where
  fetched : List Nat := []
  /-- The reads, or why the input is refused as it is opened. -/
  reads : Except FileError (List Read)

/-- How a compressed file is read, by so many bytes at a time. -/
abbrev Codec := Compression → Nat → StoredFile → OpenedInput

namespace CountedInput

/-- The last read of an input: it finds the end, or it fails. -/
def lastRead (input : CountedInput) : Option FileError → Read
  | some failure => { outcome := .error failure }
  | none => { fetched := [input.read], outcome := .ok [] }

def reads (size : Nat) (fault : Option FileError) (input : CountedInput) :
    List Read :=
  let taken := input.take (size + 1)
  if taken.2 = [] then [taken.1.lastRead fault]
  else
    { fetched := [taken.1.read], outcome := .ok taken.2 } ::
      reads size fault taken.1
termination_by input.rest.length
decreasing_by
  rename_i chunkNonempty
  have restNonempty : input.rest ≠ [] := by
    intro empty
    exact chunkNonempty (by simp [taken, CountedInput.take, empty])
  have positive := List.length_pos_iff.2 restNonempty
  simp only [CountedInput.take, List.length_drop]
  omega

end CountedInput

namespace Codec

/-- The first block that is fetched from a file; it is not reported if not even
that can be. -/
def firstBlock (format : Compression) (stored : StoredFile) : List Nat :=
  match stored.fault, stored.bytes with
  | some _, [] => []
  | _, bytes => [min bytes.length format.blockSize]

/-- Why nothing is read from a compressed file: if it cannot even be read as it
is stored, that stands above what its bytes show. -/
def faultOf (stored : StoredFile) (failure : FileError) : FileError :=
  match stored.fault, stored.bytes with
  | some fault, [] => fault
  | _, _ => failure

/-- The codec that knows how every format begins and refuses all of them at the
first read. -/
def refusing : Codec := fun format _ stored =>
  let block := firstBlock format stored
  let outcome := (format.content stored.bytes).mapError (faultOf stored)
  if format.looksAhead then
    { fetched := block, reads := .ok [{ outcome := outcome }] }
  else { reads := .ok [{ fetched := block, outcome := outcome }] }

/-- Open an input to read so many bytes at a time, but at least one. -/
def openInput (codec : Codec) (format : Compression) (chunk : Nat)
    (stored : StoredFile) : OpenedInput :=
  match format with
  | .none =>
      { reads := .ok (CountedInput.reads (chunk - 1) stored.fault
          { rest := stored.bytes }) }
  | format => codec format chunk stored

end Codec

end SqlDump
