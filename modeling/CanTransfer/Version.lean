/-!
# Version

Programs that use the library report its version. Nothing in the library reads it.
-/

set_option autoImplicit false

namespace CanTransfer

/-- The version of this library. -/
def version : String := "0.1.0"

end CanTransfer
