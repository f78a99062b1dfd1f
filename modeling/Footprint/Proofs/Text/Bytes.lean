/-!
# Texts by their bytes

Texts are ordered by the codes of their characters, and their UTF-8 bytes are in the same order. Of two
characters the first byte in which they differ decides, and neither is the beginning of the other.
-/

namespace Footprint.Text

def bytes (s : String) : List UInt8 := s.toList.flatMap String.utf8EncodeChar

end Footprint.Text
