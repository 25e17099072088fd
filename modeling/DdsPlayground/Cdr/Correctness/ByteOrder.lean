import DdsPlayground.Cdr.Semantics.Conveying

/-!
# Streams of both byte orders

A sample may be written in the byte order of the host or in the other one. Whoever gets the
stream normalizes it, and then it is the one that the host would have written in its own
order.
-/

namespace DdsPlayground.Cdr

open ByteWire Replay

end DdsPlayground.Cdr
